import ReferenceMonitor.Monitor.Replies

/-!
# What an emulation does not look at

Of the memory that the monitor allocates while it handles a call, a handler reads the contents only
to send them to Lind or to copy them back. Two environments that differ in nothing else
(`SameButFresh`), and in which Lind gives the same answers, take an emulation through the same steps
to the same result (`blind_emulation`); only the offset that `lind_lseek` returns is read from such
memory.

`monitor_sendmsg` and `monitor_recvmsg` may read beyond a block they have filled from the tracee,
the vector, whose number is `1`.
-/

namespace ReferenceMonitor

open Halting

/-- The calls whose handler looks at the lengths in a vector, and beyond its end. -/
def HasVector (c : Option LindCall) : Prop := c = some .sendmsg ∨ c = some .recvmsg

instance (c : Option LindCall) : Decidable (HasVector c) := inferInstanceAs (Decidable (_ ∨ _))

/-- The environments differ at most in what the memory in and around the blocks of a call holds
where nothing was stored. -/
structure SameButFresh (c : Option LindCall) (env env' : Env) : Prop where
  eq : env' = { env with heap := env'.heap, around := env'.around }
  vector : HasVector c → env'.around 1 = env.around 1

theorem sameButFresh_self (c : Option LindCall) (env : Env) : SameButFresh c env env :=
  ⟨rfl, fun _ ↦ rfl⟩

namespace SameButFresh

variable {c : Option LindCall} {env env' : Env}

theorem heapAddr (h : SameButFresh c env env') : env'.heapAddr = env.heapAddr := by rw [h.eq]

theorem vararg (h : SameButFresh c env env') : env'.vararg = env.vararg := by rw [h.eq]

theorem lind (h : SameButFresh c env env') : env'.lind = env.lind := by rw [h.eq]

theorem tail (h : SameButFresh c env env') : env'.tail = env.tail := by rw [h.eq]

end SameButFresh

/-! ### Blocks filled from the tracee -/

/-- A block numbered `1` in which everything was stored. -/
structure Block.Vector (b : Block) : Prop where
  number : b.number = 1
  stored : ∀ c ∈ b.cells, ∃ v, c = .stored v

theorem stored_memBlock {number : ℕ} {m : ByteMemory} {addr : Word} {n : ℕ} {c : Cell}
    (h : c ∈ (memBlock number m addr n).cells) : ∃ v, c = .stored v := by
  obtain ⟨w, -, hw⟩ := List.mem_flatMap.1 h
  obtain ⟨j, -, rfl⟩ := List.mem_map.1 hw
  exact ⟨_, rfl⟩

theorem vector_memBlock (m : ByteMemory) (addr : Word) (n : ℕ) : (memBlock 1 m addr n).Vector where
  number := rfl
  stored _ := stored_memBlock

/-- A word of such a block, or of the memory after it. -/
theorem Block.Vector.wordAt_eq {b : Block} (hb : b.Vector) {c : Option LindCall} (hc : HasVector c)
    {env env' : Env} (h : SameButFresh c env env') (o : ℤ) :
    b.wordAt env' o = b.wordAt env o := by
  refine wordOf_congr fun j _ ↦ ?_
  rw [Block.byteAt, Block.byteAt]
  cases hcell : (if 0 ≤ o + j then b.cells[(o + j).toNat]? else none) with
  | none =>
    dsimp only
    rw [hb.number, h.vector hc]
  | some c =>
    split at hcell
    · obtain ⟨v, rfl⟩ := hb.stored c (List.mem_of_getElem? hcell)
      rfl
    · cases hcell

/-- A word of a block filled by `get_mem`. -/
theorem wordAt_memBlock_eq (env env' : Env) (number : ℕ) (m : ByteMemory) (addr : Word) {n : ℕ}
    (i : ℕ) (hi : i < n) :
    (memBlock number m addr n).wordAt env' (8 * i : ℕ) =
      (memBlock number m addr n).wordAt env (8 * i : ℕ) := by
  rw [wordAt_memBlock _ _ _ _ hi, wordAt_memBlock _ _ _ _ hi]

/-! ### Reading code -/

/-- In lockstep, whatever fresh memory holds. -/
abbrev Blind (c : Option LindCall) {α β : Type} (S : α → β → Prop) (q : Fetch α) (q' : Fetch β) :
    Prop :=
  Lockstep (fun p p' ↦ SameButFresh c p.1 p'.1 ∧ p'.2 = p.2) Eq S q q'

/-- Some value or other. -/
abbrev Any {α β : Type} (_ : α) (_ : β) : Prop := True

section Fetch

variable {c : Option LindCall}

/-- Code that looks neither at fresh memory nor around it. -/
theorem blind_of_eq {α : Type} {q : Fetch α}
    (h : ∀ env heap around m log,
      q ({ env with heap := heap, around := around }, m) log = q (env, m) log) :
    Blind c Eq q q := by
  rintro ⟨env, m⟩ ⟨env', m'⟩ log log' ⟨hfresh, hm⟩ rfl
  obtain rfl : m' = m := hm
  have heq := hfresh.eq
  dsimp only at heq
  rw [heq, h env env'.heap env'.around]
  exact alike_refl _

theorem blind_getPath (addr : Word) : Blind c Eq (getPath addr) (getPath addr) :=
  blind_of_eq fun env heap around m log ↦ by
    rw [getPath, bind_apply, bind_apply, ask_apply, ask_apply, Outcome.andThen_done,
      Outcome.andThen_done]
    dsimp only
    cases pathLoop m addr (2 ^ 29) 0 pathMax [] <;> rfl

theorem blind_getMem (number : ℕ) (addr count : Word) :
    Blind c Eq (getMem number addr count) (getMem number addr count) :=
  blind_of_eq fun env heap around m log ↦ by
    simp only [getMem, bind_apply, ask_apply, Outcome.andThen_done]
    split <;> rfl

theorem blind_loadOwn (a : Word) (n : ℕ) : Blind c Eq (loadOwn a n) (loadOwn a n) :=
  blind_of_eq fun env heap around m log ↦ by
    simp only [loadOwn, bind_apply, ask_apply, Outcome.andThen_done]
    cases (List.range n).mapM fun i ↦ env.own (a + BitVec.ofNat 64 i) <;> rfl

theorem blind_stringOwn (a : Word) : Blind c Eq (stringOwn a) (stringOwn a) :=
  blind_of_eq fun env heap around m log ↦ by
    simp only [stringOwn, bind_apply, ask_apply, Outcome.andThen_done]
    cases env.ownString a <;> rfl

theorem blind_loadForeign (a : Word) (n : ℕ) : Blind c Eq (loadForeign a n) (loadForeign a n) :=
  Lockstep.bind (S := Eq) (blind_of_eq fun _ _ _ _ _ ↦ rfl) fun _ _ _ ↦ blind_loadOwn a n

theorem blind_derefSocklen_foreign (a : Word) :
    Blind c Eq (derefSocklen (.foreign a)) (derefSocklen (.foreign a)) :=
  (blind_loadForeign a 4).bind fun _ _ h ↦ lockstep_pure (by rw [h])

/-- What is sent of a block is not followed further. -/
theorem blind_pyBytes_block (b : Block) (n : ℤ) :
    Blind c Any (pyBytes (.block b) n) (pyBytes (.block b) n) := by
  refine lockstep_ask_bind ?_
  rintro ⟨env, m⟩ ⟨env', m'⟩ -
  exact (lockstep_pure trivial).ite Iff.rfl (lockstep_pure trivial)

theorem blind_pyBytes_stray (a : Word) (n : ℤ) :
    Blind c Eq (pyBytes (.stray a) n) (pyBytes (.stray a) n) := by
  refine lockstep_ask_bind ?_
  rintro ⟨env, m⟩ ⟨env', m'⟩ -
  refine (lockstep_pure rfl).ite Iff.rfl (Lockstep.ite Iff.rfl ?_ ?_)
  · exact (blind_loadOwn _ _).bind fun _ _ h ↦ lockstep_pure (by rw [h])
  · exact (blind_stringOwn _).bind fun _ _ h ↦ lockstep_pure (by rw [h])

/-! ### Messages -/

/-- The vector is filled from the tracee. -/
theorem blind_getMem_vector (addr count : Word) :
    Blind c (fun b b' ↦ b' = b ∧ b.Vector) (getMem 1 addr count) (getMem 1 addr count) := by
  refine lockstep_ask_bind ?_
  rintro ⟨env, m⟩ ⟨env', m'⟩ ⟨-, hm⟩
  obtain rfl : m' = m := hm
  exact (lockstep_stop _).ite Iff.rfl (lockstep_pure ⟨rfl, vector_memBlock _ _ _⟩)

/-- Some words of the tracee, as many as an `int` counts. -/
theorem blind_getMem_memBlock {number : ℕ} {addr count : Word} (h : count.toNat / 8 + 1 < 2 ^ 31) :
    Blind c (fun b b' ↦ b' = b ∧ ∃ m, b = memBlock number m addr (count.toNat / 8 + 1))
      (getMem number addr count) (getMem number addr count) := by
  rintro ⟨env, m⟩ ⟨env', m'⟩ log log' ⟨-, hm⟩ rfl
  obtain rfl : m' = m := hm
  rw [getMem_apply h, getMem_apply h]
  exact .done ⟨rfl, m', rfl⟩ rfl

theorem blind_readMsghdr (r : SyscallArgs) :
    Blind c (fun v v' ↦ v' = v ∧ v.iovs.Vector) (readMsghdr r) (readMsghdr r) := by
  have hbound : (BitVec.ofNat 64 sizeofMsghdr).toNat / 8 + 1 < 2 ^ 31 := by decide
  refine (blind_getMem_memBlock hbound).bind ?_
  rintro _ msg ⟨rfl, m, hmsg⟩
  refine lockstep_ask_bind ?_
  rintro ⟨env, _⟩ ⟨env', _⟩ -
  -- the header lies inside the words read
  have hword (i : ℕ) (hi : i < 8) (o : ℤ) (ho : o = (8 * i : ℕ)) :
      msg.wordAt env' o = msg.wordAt env o := by
    subst ho hmsg
    exact wordAt_memBlock_eq env env' 0 m r.arg2 i hi
  dsimp only
  rw [Block.intAt, Block.intAt, hword 0 (by decide) 0 rfl, hword 1 (by decide) 8 rfl,
    hword 2 (by decide) 16 rfl, hword 3 (by decide) 24 rfl, hword 4 (by decide) 32 rfl,
    hword 5 (by decide) 40 rfl, hword 6 (by decide) 48 rfl]
  refine (blind_loadForeign _ _).bind ?_
  rintro _ base rfl
  refine (blind_getMem_vector _ _).bind ?_
  rintro _ iovs ⟨rfl, hiovs⟩
  exact lockstep_pure ⟨rfl, hiovs⟩

theorem blind_patchBases {env env' : Env} (henv : env'.heapAddr = env.heapAddr) {iovs : Block}
    (h : iovs.Vector) (n : ℕ) :
    Blind c (fun b b' ↦ b' = b ∧ b.Vector) (patchBases env iovs n) (patchBases env' iovs n) := by
  rw [patchBases, patchBases, henv]
  refine (lockstep_stop _).ite Iff.rfl (lockstep_pure ⟨rfl, h.number, fun cell hcell ↦ ?_⟩)
  obtain ⟨o, ho, rfl⟩ := List.mem_mapIdx.1 hcell
  split
  · exact ⟨_, rfl⟩
  · exact h.stored _ (List.getElem_mem ho)

/-- A header that is handed on has a vector of the monitor's own. -/
theorem blind_handOn {v : MsgView} (hv : v.iovs.Vector) :
    Blind c (fun h h' ↦ h' = h ∧ h.iov.Vector) (handOn v) (handOn v) := by
  refine lockstep_ask_bind ?_
  rintro ⟨env, m⟩ ⟨env', m'⟩ ⟨h, -⟩
  refine (blind_patchBases h.heapAddr hv v.iovlen.toNat).bind ?_
  rintro _ iovs ⟨rfl, hiovs⟩
  exact lockstep_pure ⟨rfl, hiovs⟩

theorem blind_concatLoop (hc : HasVector c) {iov : Block} (hiov : iov.Vector)
    (size known rounds i : ℕ) (final : ℤ) :
    Blind c Eq (concatLoop iov size known rounds i final)
      (concatLoop iov size known rounds i final) := by
  induction rounds generalizing i final with
  | zero => exact lockstep_pure rfl
  | succ rounds ih =>
    refine lockstep_ask_bind ?_
    rintro ⟨env, m⟩ ⟨env', m'⟩ ⟨h, -⟩
    dsimp only
    rw [iovLen, iovLen, hiov.wordAt_eq hc h, hiov.wordAt_eq hc h]
    refine (ih _ _).ite Iff.rfl (Lockstep.ite Iff.rfl ?_ ?_)
    · exact (ih _ _).ite Iff.rfl (lockstep_stop _)
    · exact (blind_loadOwn _ _).bind fun _ _ _ ↦ (ih _ _).ite Iff.rfl (lockstep_stop _)

theorem blind_packIov (hc : HasVector c) {iov : Block} (hiov : iov.Vector) (iovlen : Word) :
    Blind c Eq (packIov iov iovlen) (packIov iov iovlen) := by
  refine lockstep_ask_bind ?_
  rintro ⟨env, m⟩ ⟨env', m'⟩ ⟨h, -⟩
  have hlen : iovLen env' iov = iovLen env iov := funext fun i ↦ hiov.wordAt_eq hc h _
  dsimp only
  rw [hlen]
  refine (lockstep_stop _).ite Iff.rfl ?_
  split
  · exact lockstep_stop _
  · exact (blind_concatLoop hc hiov _ _ _ _ _).bind fun _ _ _ ↦ lockstep_pure rfl

theorem blind_msgRequest (hc : HasVector c) {msg : MsgHdr} (hmsg : msg.iov.Vector) (num : ℕ)
    (sockfd flags : ℤ) :
    Blind c Any (msgRequest num sockfd msg flags) (msgRequest num sockfd msg flags) := by
  refine lockstep_ask_bind ?_
  rintro ⟨env, m⟩ ⟨env', m'⟩ -
  exact (blind_packIov hc hmsg _).bind fun _ _ _ ↦ (blind_pyBytes_block _ _).bind fun _ _ _ ↦
    (blind_pyBytes_stray _ _).bind fun _ _ _ ↦ lockstep_pure trivial

theorem blind_fetchData (hc : HasVector c) {v : MsgView} (hv : v.iovs.Vector) (n : ℕ) :
    Blind c Any (fetchData v n) (fetchData v n) := by
  induction n with
  | zero => exact lockstep_pure trivial
  | succ n ih =>
    refine ih.bind fun _ _ _ ↦ lockstep_ask_bind ?_
    rintro ⟨env, m⟩ ⟨env', m'⟩ ⟨h, -⟩
    dsimp only
    rw [iovLen, iovLen, hv.wordAt_eq hc h, hv.wordAt_eq hc h]
    exact (blind_getMem _ _ _).bind fun _ _ _ ↦ lockstep_pure trivial

/-! ### Payloads -/

section CopyData

variable {E : Env × ByteMemory → Env × ByteMemory → Prop}

/-- Copying depends on no environment. -/
theorem lockstep_copyData (dst : Ptr) (src : ℤ → Byte) (maxlen srclen : ℤ) :
    Lockstep E Eq Eq (copyData dst src maxlen srclen) (copyData dst src maxlen srclen) := by
  refine (lockstep_pure rfl).ite Iff.rfl ?_
  cases dst with
  | block b => exact (lockstep_pure rfl).ite Iff.rfl (lockstep_stop _)
  | «foreign» a =>
    intro p p' log log' _ hlog
    exact .halt (congrArg (a :: ·) hlog)
  | stray a => exact lockstep_stop _

theorem lockstep_copyMultiLoop (src : ℤ → Byte) (rounds i : ℕ) (offset : ℤ) (varg : List Dest) :
    Lockstep E Eq Eq (copyMultiLoop src rounds i offset varg)
      (copyMultiLoop src rounds i offset varg) := by
  induction rounds generalizing i offset varg with
  | zero => exact lockstep_pure rfl
  | succ rounds ih =>
    cases varg with
    | nil => exact lockstep_stop _
    | cons d varg =>
      refine (lockstep_copyData _ _ _ _).bind ?_
      rintro dst _ rfl
      refine (lockstep_stop _).ite Iff.rfl ((ih _ _ _).bind ?_)
      rintro dsts _ rfl
      exact lockstep_pure rfl

/-- The payload of `recvfrom` depends on what lies behind it. -/
theorem lockstep_recvfromReceived (hE : ∀ p p', E p p' → p'.1.tail = p.1.tail) (r : SyscallArgs)
    (v : Verdict) : Lockstep E Eq Eq (recvfromReceived r v) (recvfromReceived r v) := by
  cases v with
  | failed => exact lockstep_pure rfl
  | error code => exact lockstep_pure rfl
  | success code data =>
    refine lockstep_ask_bind ?_
    rintro ⟨env, m⟩ ⟨env', m'⟩ h
    have hsrc : payloadAt env' data = payloadAt env data := by
      funext o
      rw [payloadAt, payloadAt, hE _ _ h]
    dsimp only
    rw [hsrc]
    exact lockstep_copyMultiLoop _ _ _ _ _

end CopyData

theorem blind_recvfromReceived (r : SyscallArgs) (v : Verdict) :
    Blind c Eq (recvfromReceived r v) (recvfromReceived r v) :=
  lockstep_recvfromReceived (fun _ _ h ↦ h.1.tail) r v

end Fetch

/-! ### Emulations -/

/-- The worlds have got equally far: their requests may differ, but not in number. -/
structure Abreast (w w' : World) : Prop where
  regs : w'.regs = w.regs
  tracee : w'.tracee = w.tracee
  requests : w'.requests.length = w.requests.length

/-- Lind answers by the number of the request. -/
def Env.ByNumber (env : Env) : Prop := ∀ l l', l'.length = l.length → env.lind l' = env.lind l

/-- In lockstep, whatever fresh memory holds, where Lind gives the same answers. -/
abbrev BlindM (c : Option LindCall) {α β : Type} (S : α → β → Prop) (x : M α) (y : M β) : Prop :=
  Lockstep (fun env env' ↦ SameButFresh c env env' ∧ env.ByNumber) Abreast S x y

section Emulation

variable {c : Option LindCall}

instance : Std.Refl Abreast := ⟨fun _ ↦ ⟨rfl, rfl, rfl⟩⟩

theorem blind_fetch {α β : Type} {S : α → β → Prop} {q : Fetch α} {q' : Fetch β}
    (h : Blind c S q q') : BlindM c S (fetch q) (fetch q') :=
  lockstep_focus h (fun _ _ _ _ henv hw ↦ ⟨henv.1, by rw [hw.tracee]⟩) rfl
    fun _ _ _ _ hw _ ↦ ⟨hw.regs, hw.tracee, hw.requests⟩

theorem abreast_send {w w' : World} (h : Abreast w w') (request request' : Request) :
    Abreast (w.send request) (w'.send request') :=
  ⟨h.regs, h.tracee, by rw [World.send, World.send, List.length_cons, List.length_cons, h.requests]⟩

theorem abreast_answered {w w' : World} (h : Abreast w w') (request request' : Request)
    (v : Verdict) : Abreast (w.answered request v) (w'.answered request' v) := by
  have hs := abreast_send h request request'
  cases v <;> exact ⟨hs.regs, hs.tracee, hs.requests⟩

/-- The answer depends on the number of the request alone. -/
theorem verdictOn_eq {env env' : Env} (h : SameButFresh c env env') (hn : env.ByNumber)
    {w w' : World} (hw : Abreast w w') (request request' : Request) :
    verdictOn env' w' request' = verdictOn env w request := by
  rw [verdictOn, verdictOn, h.lind, hn (request :: w.requests) (request' :: w'.requests)
    (by rw [List.length_cons, List.length_cons, hw.requests])]

theorem blind_lindCall (request request' : Request) :
    BlindM c Eq (lindCall request) (lindCall request') := by
  rintro env env' w w' ⟨h, hn⟩ hw
  rw [lindCall_apply, lindCall_apply, verdictOn_eq h hn hw request request']
  cases verdictOn env w request with
  | none => exact .halt (abreast_send hw _ _)
  | some v => exact .done rfl (abreast_answered hw _ _ v)

theorem received_eq {env env' : Env} (h : SameButFresh c env env') (b : Block) (maxlen : ℤ)
    (v : Verdict) : received env' b maxlen v = received env b maxlen v := by
  rw [h.eq]
  cases v <;> rfl

theorem blind_lindCallInto (request request' : Request) (b : Block) (maxlen : ℤ) :
    BlindM c Eq (lindCallInto request b maxlen) (lindCallInto request' b maxlen) := by
  rintro env env' w w' ⟨h, hn⟩ hw
  rw [lindCallInto_apply, lindCallInto_apply, verdictOn_eq h hn hw request request']
  cases verdictOn env w request with
  | none => exact .halt (abreast_send hw _ _)
  | some v =>
    dsimp only
    rw [received_eq h]
    cases received env b maxlen v with
    | none => exact .halt (abreast_answered hw _ _ v)
    | some b' => exact .done rfl (abreast_answered hw _ _ v)

theorem blind_status {q : Fetch Request} (h : Blind c Any q q) :
    BlindM c Eq (status q) (status q) :=
  (blind_fetch h).bind fun request request' _ ↦ (blind_lindCall request request').bind
    fun _ _ hret ↦ lockstep_pure (by rw [hret])

theorem blind_enterDescriptor (r : SyscallArgs) (otherwise : Result) (fd : ℤ) :
    BlindM c Eq (enterDescriptor r otherwise fd) (enterDescriptor r otherwise fd) := by
  intro env env' w w' _ hw
  rw [enterDescriptor_apply, enterDescriptor_apply]
  split
  · exact .done rfl ⟨hw.regs, hw.tracee, hw.requests⟩
  · exact .done rfl hw

theorem blind_descriptor {q : SyscallArgs → Fetch Request} (r : SyscallArgs)
    (h : Blind c Any (q r) (q r)) : BlindM c Eq (descriptor q r) (descriptor q r) := by
  refine (blind_fetch h).bind fun request request' _ ↦ (blind_lindCall request request').bind ?_
  rintro fd _ rfl
  exact blind_enterDescriptor _ _ _

theorem blind_fillWith {size : ℕ} {dst count : Word} {q : Block → Fetch (Request × ℤ)}
    (h : Blind c (fun p p' ↦ p'.2 = p.2) (q (malloc 0 size)) (q (malloc 0 size))) :
    BlindM c Eq (fillWith size dst count q) (fillWith size dst count q) := by
  refine (blind_fetch h).bind ?_
  rintro ⟨request, n⟩ ⟨request', n'⟩ hn
  obtain rfl : n' = n := hn
  refine (blind_lindCallInto request request' _ _).bind ?_
  rintro p _ rfl
  exact lockstep_pure rfl

theorem blind_fill {o : Output} {q : Block → Fetch Request}
    (h : Blind c Any (q (malloc 0 o.size)) (q (malloc 0 o.size))) :
    BlindM c Eq (fill o q) (fill o q) :=
  blind_fillWith (h.bind fun _ _ _ ↦ lockstep_pure rfl)

/-- The offset may come from fresh memory, but nothing depends on it. -/
theorem blind_lindLseek (fd fd' : ℤ) (offset offset' : Word) (whence whence' : ℤ) :
    BlindM c Any (lindLseek fd offset whence) (lindLseek fd' offset' whence') := by
  refine (blind_lindCallInto _ _ _ _).bind ?_
  rintro p _ rfl
  exact (lockstep_pure trivial).ite Iff.rfl (lockstep_ask_bind fun _ _ _ ↦ lockstep_pure trivial)

theorem blind_fillWith_pure {size : ℕ} {dst count : Word} (request : Request) (limit : ℤ) :
    BlindM c Eq (fillWith size dst count fun _ ↦ pure (request, limit))
      (fillWith size dst count fun _ ↦ pure (request, limit)) :=
  blind_fillWith (lockstep_pure rfl)

/-! ### The handlers -/

theorem blind_fcntl (fd cmd : ℤ) : Blind c Any (lindFcntl fd cmd) (lindFcntl fd cmd) := by
  refine lockstep_ask_bind ?_
  rintro ⟨env, m⟩ ⟨env', m'⟩ ⟨h, -⟩
  dsimp only
  rw [h.vararg]
  exact (lockstep_pure trivial).ite Iff.rfl (((blind_pyBytes_stray _ _).bind fun _ _ _ ↦
    lockstep_pure trivial).ite Iff.rfl (lockstep_pure trivial))

theorem blind_monitorSendmsg (hc : HasVector c) (r : SyscallArgs) :
    BlindM c Eq (monitorSendmsg r) (monitorSendmsg r) := by
  refine blind_status ((blind_readMsghdr r).bind ?_)
  rintro _ v ⟨rfl, hv⟩
  refine (blind_handOn hv).bind ?_
  rintro _ msg ⟨rfl, hmsg⟩
  exact (blind_fetchData hc hv _).bind fun _ _ _ ↦ blind_msgRequest hc hmsg _ _ _

theorem recvmsgBacks_eq (hc : HasVector c) {env env' : Env} (h : SameButFresh c env env')
    {v : MsgView} (hv : v.iovs.Vector) : recvmsgBacks env' v = recvmsgBacks env v := by
  simp only [recvmsgBacks, iovLen, hv.wordAt_eq hc h]

theorem blind_monitorRecvmsg (hc : HasVector c) (r : SyscallArgs) :
    BlindM c Eq (monitorRecvmsg r) (monitorRecvmsg r) := by
  refine (blind_fetch (blind_readMsghdr r)).bind ?_
  rintro _ v ⟨rfl, hv⟩
  have hrequest : Blind c Any
      (do lindRecvmsg (cInt r.arg1) (← handOn v) (cInt r.arg3))
      (do lindRecvmsg (cInt r.arg1) (← handOn v) (cInt r.arg3)) := by
    refine (blind_handOn hv).bind ?_
    rintro _ msg ⟨rfl, hmsg⟩
    exact blind_msgRequest hc hmsg _ _ _
  refine (blind_fetch hrequest).bind fun request request' _ ↦
    (blind_lindCall request request').bind ?_
  rintro ret _ rfl
  refine lockstep_ask_bind fun env env' h ↦ ?_
  rw [recvmsgBacks_eq hc h.1 hv]
  exact lockstep_pure rfl

theorem blind_monitorGetsockname (r : SyscallArgs) :
    BlindM c Eq (monitorGetsockname r) (monitorGetsockname r) := by
  intro env env' w w' henv hw
  rw [monitorGetsockname_apply, monitorGetsockname_apply, henv.1.heapAddr, hw.tracee]
  exact blind_fillWith_pure _ _ henv ⟨by rw [hw.regs], rfl, hw.requests⟩

theorem blind_monitorRecvfrom (r : SyscallArgs) :
    BlindM c Eq (monitorRecvfrom r) (monitorRecvfrom r) := by
  intro env env' w w' henv hw
  rw [monitorRecvfrom_apply, monitorRecvfrom_apply, verdictOn_eq henv.1 henv.2 hw]
  cases verdictOn env w (recvfromRequest r) with
  | none => exact .halt (abreast_send hw _ _)
  | some v =>
    refine (blind_fetch (blind_recvfromReceived r v) henv (abreast_answered hw _ _ v)).andThen ?_
    rintro dsts _ t t' rfl ht
    exact .done rfl ht

theorem blind_monitorSelect (r : SyscallArgs) :
    BlindM c Eq (monitorSelect r) (monitorSelect r) := by
  refine (blind_fetch (blind_getMem _ _ _)).bind ?_
  rintro set1 _ rfl
  refine (blind_fetch (blind_getMem _ _ _)).bind ?_
  rintro set2 _ rfl
  refine (blind_fetch (blind_getMem _ _ _)).bind ?_
  rintro set3 _ rfl
  refine (blind_fetch (blind_getMem _ _ _)).bind ?_
  rintro tv _ rfl
  refine Lockstep.bind (S := Eq) (lockstep_ask_bind fun env env' _ ↦ ?_) ?_
  · refine (blind_lindCallInto _ _ _ _).bind ?_
    rintro p _ rfl
    exact (lockstep_pure rfl).ite Iff.rfl (lockstep_pure rfl)
  · rintro p _ rfl
    exact lockstep_pure rfl

theorem blind_monitorEpollCtl (r : SyscallArgs) :
    BlindM c Eq (monitorEpollCtl r) (monitorEpollCtl r) := by
  have hrequest : Blind c Any
      (do
        let arg ← getMem 1 r.arg4 (BitVec.ofNat 64 sizeofEpollEvent)
        lindEpollCtl (cInt r.arg1) (cInt r.arg2) (cInt r.arg3) (.block arg))
      (do
        let arg ← getMem 1 r.arg4 (BitVec.ofNat 64 sizeofEpollEvent)
        lindEpollCtl (cInt r.arg1) (cInt r.arg2) (cInt r.arg3) (.block arg)) := by
    refine (blind_getMem _ _ _).bind ?_
    rintro arg _ rfl
    exact (blind_pyBytes_block _ _).bind fun _ _ _ ↦ lockstep_pure trivial
  refine (blind_fetch hrequest).bind fun request request' _ ↦
    (blind_lindCall request request').bind ?_
  rintro ret _ rfl
  exact lockstep_pure rfl

theorem blind_monitorSocketpair (r : SyscallArgs) :
    BlindM c Eq (monitorSocketpair r) (monitorSocketpair r) := by
  refine (blind_fetch (blind_getMem _ _ _)).bind ?_
  rintro fds _ rfl
  refine (blind_lindCallInto _ _ _ _).bind ?_
  rintro p _ rfl
  exact blind_enterDescriptor _ _ _

theorem blind_monitorPread64 (r : SyscallArgs) :
    BlindM c Eq (monitorPread64 r) (monitorPread64 r) := by
  refine (blind_fetch (blind_getMem _ _ _)).bind ?_
  rintro buf _ rfl
  refine Lockstep.bind (S := Eq) ?_ ?_
  · refine (blind_lindLseek _ _ _ _ _ _).bind fun pos pos' _ ↦
      (blind_lindLseek _ _ _ _ _ _).bind fun _ _ _ ↦ (blind_lindCallInto _ _ _ _).bind ?_
    rintro ret _ rfl
    exact (blind_lindLseek _ _ _ _ _ _).bind fun _ _ _ ↦ lockstep_pure rfl
  · rintro ret _ rfl
    exact lockstep_pure rfl

theorem blind_lindWrite (fd : ℤ) (b : Block) (count : ℤ) :
    Blind c Any (lindWrite fd (.block b) count) (lindWrite fd (.block b) count) :=
  (blind_pyBytes_block _ _).bind fun _ _ _ ↦ lockstep_pure trivial

theorem blind_monitorPwritev (r : SyscallArgs) :
    BlindM c Eq (monitorPwritev r) (monitorPwritev r) := by
  refine (blind_fetch (blind_getMem _ _ _)).bind ?_
  rintro data _ rfl
  refine Lockstep.bind (S := Eq) ?_ ?_
  · refine (blind_lindLseek _ _ _ _ _ _).bind fun pos pos' _ ↦
      (blind_lindLseek _ _ _ _ _ _).bind fun _ _ _ ↦
        (blind_fetch (blind_lindWrite _ _ _)).bind fun request request' _ ↦
          (blind_lindCall request request').bind ?_
    rintro ret _ rfl
    exact (blind_lindLseek _ _ _ _ _ _).bind fun _ _ _ ↦ lockstep_pure rfl
  · rintro ret _ rfl
    exact lockstep_pure rfl

/-- **Blindness.** Every emulation but that of `lseek` yields the same result, blocks included,
whatever fresh memory holds. -/
theorem blind_emulation {c : LindCall} (h : c ≠ .lseek) (r : SyscallArgs) :
    BlindM (some c) Eq (c.emulation r) (c.emulation r) := by
  cases c with
  | lseek => exact absurd rfl h
  | getuid | getpid | geteuid | getgid | getegid | flock | listen | shutdown =>
    exact blind_status (lockstep_pure trivial)
  | rmdir | unlink | mkdir | chdir =>
    exact blind_status ((blind_getPath _).bind fun _ _ _ ↦ lockstep_pure trivial)
  | link =>
    exact blind_status ((blind_getPath _).bind fun _ _ _ ↦ (blind_getPath _).bind fun _ _ _ ↦
      lockstep_pure trivial)
  | fcntl => exact blind_status (blind_fcntl _ _)
  | write | bind | connect | setsockopt =>
    refine blind_status ((blind_getMem _ _ _).bind ?_)
    rintro b _ rfl
    exact (blind_pyBytes_block _ _).bind fun _ _ _ ↦ lockstep_pure trivial
  | sendto =>
    refine blind_status ((blind_getMem _ _ _).bind ?_)
    rintro data _ rfl
    refine (blind_getMem _ _ _).bind ?_
    rintro addr _ rfl
    exact (blind_pyBytes_block _ _).bind fun _ _ _ ↦ (blind_pyBytes_block _ _).bind fun _ _ _ ↦
      lockstep_pure trivial
  | sendmsg => exact blind_monitorSendmsg (.inl rfl) r
  | recvmsg => exact blind_monitorRecvmsg (.inr rfl) r
  | dup | dup2 | dup3 | epoll_create1 | epoll_create | socket =>
    rw [LindCall.emulation]
    refine blind_descriptor r ?_
    exact lockstep_pure trivial
  | openat | access =>
    rw [LindCall.emulation]
    refine blind_descriptor r ?_
    exact (blind_getPath _).bind fun _ _ _ ↦ lockstep_pure trivial
  | accept =>
    rw [LindCall.emulation]
    refine blind_descriptor r ?_
    refine (blind_getMem _ _ _).bind ?_
    rintro addr _ rfl
    refine (blind_derefSocklen_foreign _).bind ?_
    rintro n _ rfl
    exact (blind_pyBytes_block _ _).bind fun _ _ _ ↦ lockstep_pure trivial
  | «open» =>
    refine (blind_fetch (blind_getPath _)).bind fun _ _ _ ↦ (blind_lindCall _ _).bind ?_
    rintro fd _ rfl
    exact blind_enterDescriptor _ _ _
  | read | getdents | fstat | fstatfs | epoll_wait =>
    rw [LindCall.emulation]
    refine blind_fill ?_
    exact lockstep_pure trivial
  | stat | statfs =>
    rw [LindCall.emulation]
    refine blind_fill ?_
    exact (blind_getPath _).bind fun _ _ _ ↦ lockstep_pure trivial
  | poll =>
    rw [LindCall.emulation]
    refine blind_fill ?_
    exact (blind_pyBytes_block _ _).bind fun _ _ _ ↦ lockstep_pure trivial
  | getsockopt =>
    rw [LindCall.emulation]
    refine blind_fillWith ?_
    refine (blind_derefSocklen_foreign _).bind ?_
    rintro n _ rfl
    exact lockstep_pure rfl
  | getsockname => exact blind_monitorGetsockname r
  | recvfrom => exact blind_monitorRecvfrom r
  | select => exact blind_monitorSelect r
  | epoll_ctl => exact blind_monitorEpollCtl r
  | socketpair => exact blind_monitorSocketpair r
  | pread64 => exact blind_monitorPread64 r
  | pwritev => exact blind_monitorPwritev r
  | close => exact (blind_status (lockstep_pure trivial)).ite Iff.rfl (lockstep_pure rfl)
  | getcwd => exact (blind_fetch (blind_getPath _)).bind fun _ _ _ ↦ lockstep_pure rfl
  | getpeername => exact lockstep_pure rfl

end Emulation

end ReferenceMonitor
