import ReferenceMonitor.Monitor.Destinations
import ReferenceMonitor.Monitor.Overwriting
import ReferenceMonitor.System.Arguments
import ReferenceMonitor.System.Delivery

/-!
# Lengths that are arguments and results

`getsockname`, `getsockopt`, `accept` and `recvfrom` take a buffer and a pointer to a length: how
much room there is, and afterwards how much there was. No handler writes that length back. Those of
`getsockname` and `getsockopt` copy back sixteen bytes, whatever was received in them; that of
`accept` copies nothing; and `lind_recvfrom` stores the length through the tracee's pointer, and
halts. Three of them load the length through that pointer, too.
-/

namespace ReferenceMonitor

open Halting

/-! ### What the calls should do -/

/-- The buffer of a call, and where its length is. -/
structure ValueResult where
  buf : Word
  lenp : Word

/-- The calls with such an argument. -/
def LindCall.valueResult (r : UserRegs) : LindCall → Option ValueResult
  | getsockname | accept => some ⟨r.rsi, r.rdx⟩
  | getsockopt => some ⟨r.r10, r.r8⟩
  | recvfrom => some ⟨r.r8, r.r9⟩
  | _ => none

/-- What else a call writes to: the message of `recvfrom` has a buffer of its own. -/
def LindCall.WritesTo (r : UserRegs) : LindCall → Word → Prop
  | recvfrom => InRange r.rsi r.rdx.toNat
  | _ => fun _ ↦ False

/-- The payload of an answer with address or option data: that of `recvfrom` has the length of the
address in four bytes and the message before it. -/
def LindCall.Answers (d data : List Byte) : LindCall → Prop
  | recvfrom => ∃ addrlen msg, addrlen.length = 4 ∧ data = frame [addrlen, msg, d]
  | _ => data = d

/-- The memory afterwards: outside the length word, only bytes of the buffer have changed, no more
than there is room for and no more than there are, to those of the data; the length word has the
length of the data. -/
structure ValueStored (writes : Word → Prop) (v : ValueResult) (room : ℕ) (d : List Byte)
    (m m' : ByteMemory) : Prop where
  bytes : ∀ x, ¬ InRange v.lenp 4 x → ¬ writes x → m'.byte x = m.byte x ∨
    InRange v.buf (min room d.length) x ∧ m'.byte x = some (d.getD (x - v.buf).toNat 0)
  length : BytesAt m' v.lenp (lengthBytes d.length)

/-- The call stores its result so, whatever fresh memory held. -/
def StoresValue (c : LindCall) (env : Env) (w : World) (t : Tracee) (v : ValueResult) (room : ℕ)
    (d : List Byte) : Prop :=
  ∀ heap, ∃ w', emulated c.emulation (env.withHeap heap) (w.atStop t) = .done () w' ∧
    ValueStored (c.WritesTo t.regs) v room d t.mem w'.tracee.mem

/-! ### A structure that is copied back -/

/-- A structure of which the first `n` bytes are those of the data is copied back in full: what is
written of it is not behind these bytes, and outside the length word not behind the room there is,
or there already; and the length word, as far as it is not overwritten, has the length of the
data. -/
structure ValueKept (m : ByteMemory) (v : ValueResult) (room : ℕ) (d : List Byte) (n : ℤ) :
    Prop where
  nonneg : 0 ≤ n
  le : n ≤ sizeofSockaddr
  written : ∀ k < sizeofSockaddr, m.Pokeable (wordAddr v.buf (k / 8 : ℕ)) → (k : ℤ) < n ∧
    (InRange v.lenp 4 (v.buf + BitVec.ofNat 64 k) ∨ k < room ∨
      m.byte (v.buf + BitVec.ofNat 64 k) = some (d.getD k 0))
  length : ∀ j < 4, (if CopiesTo m v.buf (BitVec.ofNat 64 sizeofSockaddr)
        (v.lenp + BitVec.ofNat 64 j) then d.getD (v.lenp + BitVec.ofNat 64 j - v.buf).toNat 0
      else (lengthBytes room).getD j 0) = (lengthBytes d.length).getD j 0

section Kept

variable {m : ByteMemory} {v : ValueResult} {room : ℕ} {d : List Byte}

/-- Two bytes are not all there are. -/
theorem exists_byte_ne (o o' : Option Byte) : ∃ β : Byte, some β ≠ o ∧ some β ≠ o' := by
  by_contra hno
  push Not at hno
  have hone (β : Byte) : some β = o ∨ some β = o' := or_iff_not_imp_left.2 (hno β)
  have hinj {β γ : Byte} {p : Option Byte} (hβ : some β = p) (hγ : some γ = p) : β = γ :=
    Option.some.inj (hβ.trans hγ.symm)
  -- two of three bytes would be the same
  obtain h0 | h0 := hone 0 <;> obtain h1 | h1 := hone 1 <;> obtain h2 | h2 := hone 2
  · exact absurd (hinj h0 h1) (by decide)
  · exact absurd (hinj h0 h1) (by decide)
  · exact absurd (hinj h0 h2) (by decide)
  · exact absurd (hinj h1 h2) (by decide)
  · exact absurd (hinj h1 h2) (by decide)
  · exact absurd (hinj h0 h2) (by decide)
  · exact absurd (hinj h0 h1) (by decide)
  · exact absurd (hinj h0 h1) (by decide)

/-- A block that begins with `n` bytes of the data and holds anything behind them. -/
def HoldsFirst (env : Env) (b : (ℕ → ℕ → Byte) → Block) (d : List Byte) (n : ℤ) : Prop :=
  ∀ heap, ∀ k < sizeofSockaddr, (b heap).byteAt (env.withHeap heap) (k : ℕ) =
    if (k : ℤ) < n then d.getD k 0 else heap 0 k

section HoldsFirst

variable {n : ℤ} {env : Env} {b : (ℕ → ℕ → Byte) → Block}

theorem copiesTo_sockaddr_iff {a x : Word} :
    CopiesTo m a (BitVec.ofNat 64 sizeofSockaddr) x ↔
      InRange a sizeofSockaddr x ∧ m.Pokeable (wordAddr a ((x - a).toNat / 8 : ℕ)) := Iff.rfl

/-- A byte after such a block was copied. -/
theorem byte_writeMem_holdsFirst (hb : HoldsFirst env b d n) (heap : ℕ → ℕ → Byte) (x : Word) :
    (writeMem m v.buf ((b heap).wordAt (env.withHeap heap)) (BitVec.ofNat 64 sizeofSockaddr)).byte
        x =
      if CopiesTo m v.buf (BitVec.ofNat 64 sizeofSockaddr) x then
        some (if ((x - v.buf).toNat : ℤ) < n then d.getD (x - v.buf).toNat 0
          else heap 0 (x - v.buf).toNat)
      else m.byte x := by
  rw [byte_writeMem_whole (by decide) rfl (env.withHeap heap) (b heap) x]
  refine if_ctx_congr Iff.rfl (fun hx ↦ ?_) fun _ ↦ rfl
  rw [hb heap _ (copiesTo_sockaddr_iff.1 hx).1]

/-- A byte that was not received can be any, so that it is stored right only by chance. -/
theorem lt_of_forall_valueStored (hb : HoldsFirst env b d n)
    (hall : ∀ heap, ValueStored (fun _ ↦ False) v room d m (writeMem m v.buf
      ((b heap).wordAt (env.withHeap heap)) (BitVec.ofNat 64 sizeofSockaddr))) {x : Word}
    (hx : CopiesTo m v.buf (BitVec.ofNat 64 sizeofSockaddr) x) : ((x - v.buf).toNat : ℤ) < n := by
  by_contra hge
  -- behind the received bytes is what the fresh block held
  have hany (β : Byte) := byte_writeMem_holdsFirst (m := m) (v := v) hb (fun _ _ ↦ β) x
  simp only [if_pos hx, if_neg hge] at hany
  by_cases hlenp : InRange v.lenp 4 x
  · have hword (β : Byte) := (hall fun _ _ ↦ β).length _
      (show (x - v.lenp).toNat < (lengthBytes d.length).length by rwa [length_lengthBytes])
    simp only [← eq_add_sub v.lenp x, hany] at hword
    exact absurd ((hword 0).trans (hword 1).symm) (by decide)
  · obtain ⟨β, hne, hne'⟩ := exists_byte_ne (m.byte x) (some (d.getD (x - v.buf).toNat 0))
    have hbytes := (hall fun _ _ ↦ β).bytes x hlenp not_false
    rw [hany β] at hbytes
    exact hbytes.elim hne fun h ↦ hne' h.2

/-- The byte of a structure by its index. -/
theorem copiesTo_index {k : ℕ} (hk : k < sizeofSockaddr)
    (hpoke : m.Pokeable (wordAddr v.buf (k / 8 : ℕ))) :
    (v.buf + BitVec.ofNat 64 k - v.buf).toNat = k ∧
      CopiesTo m v.buf (BitVec.ofNat 64 sizeofSockaddr) (v.buf + BitVec.ofNat 64 k) := by
  have hoff : (v.buf + BitVec.ofNat 64 k - v.buf).toNat = k :=
    toNat_add_sub_self v.buf (by rw [sizeofSockaddr] at hk; omega)
  refine ⟨hoff, copiesTo_sockaddr_iff.2 ?_⟩
  rw [InRange, hoff]
  exact ⟨hk, hpoke⟩

theorem valueKept_of_forall_valueStored (hnonneg : 0 ≤ n) (hle : n ≤ sizeofSockaddr)
    (hroom : BytesAt m v.lenp (lengthBytes room)) (hb : HoldsFirst env b d n)
    (hall : ∀ heap, ValueStored (fun _ ↦ False) v room d m (writeMem m v.buf
      ((b heap).wordAt (env.withHeap heap)) (BitVec.ofNat 64 sizeofSockaddr))) :
    ValueKept m v room d n := by
  have hfirst {x : Word} := lt_of_forall_valueStored hb hall (x := x)
  refine ⟨hnonneg, hle, fun k hk hpoke ↦ ?_, fun j hj ↦ ?_⟩
  · obtain ⟨hoff, hx⟩ := copiesTo_index hk hpoke
    have hlt := hfirst hx
    rw [hoff] at hlt
    refine ⟨hlt, or_iff_not_imp_left.2 fun hlenp ↦ ?_⟩
    have hbytes := (hall env.heap).bytes _ hlenp not_false
    rw [byte_writeMem_holdsFirst hb, if_pos hx, InRange, hoff, if_pos hlt] at hbytes
    rcases hbytes with hsame | ⟨hin, -⟩
    · exact .inr hsame.symm
    · exact .inl (lt_of_lt_of_le hin (min_le_left _ _))
  · have hword := (hall env.heap).length j (by rwa [length_lengthBytes])
    rw [byte_writeMem_holdsFirst hb, hroom j (by rwa [length_lengthBytes])] at hword
    rw [← Option.some_inj, ← hword, apply_ite some]
    exact if_ctx_congr Iff.rfl (fun hx ↦ by rw [if_pos (hfirst hx)]) fun _ ↦ rfl

theorem valueStored_of_valueKept (hlen : n ≤ d.length)
    (hroom : BytesAt m v.lenp (lengthBytes room)) (hb : HoldsFirst env b d n)
    (hkept : ValueKept m v room d n) (heap : ℕ → ℕ → Byte) :
    ValueStored (fun _ ↦ False) v room d m (writeMem m v.buf
      ((b heap).wordAt (env.withHeap heap)) (BitVec.ofNat 64 sizeofSockaddr)) := by
  have hwritten {x : Word} (hx : CopiesTo m v.buf (BitVec.ofNat 64 sizeofSockaddr) x) :=
    hkept.written _ (copiesTo_sockaddr_iff.1 hx).1 (copiesTo_sockaddr_iff.1 hx).2
  refine ⟨fun x hlenp _ ↦ ?_, fun j hj ↦ ?_⟩
  · rw [byte_writeMem_holdsFirst hb]
    split
    · rename_i hx
      obtain ⟨hlt, hroom⟩ := hwritten hx
      rw [← eq_add_sub v.buf x] at hroom
      rw [if_pos hlt]
      rcases hroom with hword | hroom | hsame
      · exact absurd hword hlenp
      · exact .inr ⟨by rw [InRange]; omega, rfl⟩
      · exact .inl hsame.symm
    · exact .inl rfl
  · rw [length_lengthBytes] at hj
    rw [byte_writeMem_holdsFirst hb, hroom j (by rwa [length_lengthBytes]), ← hkept.length j hj,
      apply_ite some (CopiesTo m v.buf (BitVec.ofNat 64 sizeofSockaddr) _)]
    exact if_ctx_congr Iff.rfl (fun hx ↦ by rw [if_pos (hwritten hx).1]) fun _ ↦ rfl

/-- The copy of a structure that begins with `n` bytes of the data, and holds anything behind
them. -/
theorem forall_valueStored_iff (hnonneg : 0 ≤ n) (hle : n ≤ sizeofSockaddr) (hlen : n ≤ d.length)
    (hroom : BytesAt m v.lenp (lengthBytes room)) (hb : HoldsFirst env b d n) :
    (∀ heap, ValueStored (fun _ ↦ False) v room d m (writeMem m v.buf
        ((b heap).wordAt (env.withHeap heap)) (BitVec.ofNat 64 sizeofSockaddr))) ↔
      ValueKept m v room d n :=
  ⟨valueKept_of_forall_valueStored hnonneg hle hroom hb, valueStored_of_valueKept hlen hroom hb⟩

end HoldsFirst

/-- The `int` in a length word. -/
theorem wrapInt_eq_of_lengthBytes_eq {n n' : ℕ} (h : lengthBytes n = lengthBytes n') :
    wrapInt n = wrapInt n' := by
  have hbytes (j : ℕ) (hj : j < 4) :
      byteOf (BitVec.ofNat 64 n) j = byteOf (BitVec.ofNat 64 n') j := by
    have hget : (lengthBytes n)[j]? = (lengthBytes n')[j]? := by rw [h]
    rwa [getElem?_lengthBytes n hj, getElem?_lengthBytes n' hj, Option.some_inj] at hget
  have hwrap (n : ℕ) : wrapInt n = cInt (BitVec.ofNat 64 n) := by
    rw [← cInt_ofInt, ofInt, BitVec.ofInt_natCast]
  rw [hwrap, hwrap, ← cInt_wordOf hbytes]
  exact (cInt_wordOf fun _ _ ↦ rfl).symm

/-- In a buffer that can be written, apart from its length word, only data of just the size of the
structure is stored right, and only where just that much room is announced. -/
theorem valueKept_iff_of_writable (h : WritableRange m v.buf (BitVec.ofNat 64 sizeofSockaddr))
    (hapart : ∀ j < 4, ¬ InRange v.buf sizeofSockaddr (v.lenp + BitVec.ofNat 64 j))
    (hroom : room < 2 ^ 32) (hd : d.length < 2 ^ 31) :
    ValueKept m v room d (copyLen (wrapInt room) (wrapInt d.length)) ↔
      room = sizeofSockaddr ∧ d.length = sizeofSockaddr := by
  have hself : wrapInt d.length = d.length := wrapInt_eq_self (by omega) (by omega)
  have hcopies {j : ℕ} (hj : j < 4) : ¬ CopiesTo m v.buf (BitVec.ofNat 64 sizeofSockaddr)
      (v.lenp + BitVec.ofNat 64 j) := fun hx ↦ hapart j hj hx.1
  constructor
  · intro hkept
    have hlast : m.Pokeable (wordAddr v.buf ((sizeofSockaddr - 1) / 8 : ℕ)) :=
      h.pokeable (by decide)
    have hn := (hkept.written (sizeofSockaddr - 1) (by decide) hlast).1
    have hle := hkept.le
    have hwrap : wrapInt room = wrapInt d.length := by
      refine wrapInt_eq_of_lengthBytes_eq (List.ext_getElem (by simp) fun j hj hj' ↦ ?_)
      have hj4 : j < 4 := by rwa [length_lengthBytes] at hj
      have hbyte := hkept.length j hj4
      rwa [if_neg (hcopies hj4), List.getD_eq_getElem?_getD, List.getD_eq_getElem?_getD,
        List.getElem?_eq_getElem hj, List.getElem?_eq_getElem hj'] at hbyte
    rw [hwrap, hself, copyLen, if_neg (lt_irrefl _)] at hn hle
    rw [hself] at hwrap
    rw [sizeofSockaddr] at hn hle ⊢
    have hlen : d.length = 16 := by omega
    refine ⟨?_, hlen⟩
    rcases Nat.lt_or_ge room (2 ^ 31) with hlt | hge
    · rw [wrapInt_eq_self (by omega) (by omega)] at hwrap
      omega
    · rw [wrapInt_eq_sub (by omega) (by omega)] at hwrap
      omega
  · rintro ⟨hr, hlen⟩
    have hn : copyLen (wrapInt room) (wrapInt d.length) = sizeofSockaddr := by
      rw [hr, hlen]
      rfl
    rw [hn]
    refine ⟨by decide, le_refl _, fun k hk _ ↦ ⟨by omega, .inr (.inl (by omega))⟩, fun j hj ↦ ?_⟩
    rw [if_neg (hcopies hj), hr, hlen]

end Kept

/-! ### The length, loaded through the tracee's pointer -/

/-- The monitor has memory of its own at the address, for a `lind_socklen_t`. -/
def OwnMapped (env : Env) (a : Word) : Prop := ∀ j < 4, (env.own (a + BitVec.ofNat 64 j)).isSome

section Length

variable {env : Env} {a : Word}

theorem ownMapped_iff : OwnMapped env a ↔
    ((List.range 4).mapM fun i ↦ env.own (a + BitVec.ofNat 64 i)).isSome := by
  rw [isSome_mapM_iff]
  simp only [List.mem_range, OwnMapped]

theorem derefSocklen_of_ownMapped (h : OwnMapped env a) (m : ByteMemory) (log : List Word) :
    derefSocklen (.foreign a) (env, m) log = .done (ownSocklen env m a) (a :: log) := by
  obtain ⟨bytes, hbytes⟩ := Option.isSome_iff_exists.1 (ownMapped_iff.1 h)
  simp only [ownSocklen, derefSocklen, loadForeign, noteForeign, loadOwn, bind_apply, modify_apply,
    ask_apply, Outcome.andThen_done, hbytes]
  rfl

theorem derefSocklen_of_not_ownMapped (h : ¬ OwnMapped env a) (m : ByteMemory) (log : List Word) :
    derefSocklen (.foreign a) (env, m) log = .halt (.segv a) (a :: log) := by
  have hnone : ((List.range 4).mapM fun i ↦ env.own (a + BitVec.ofNat 64 i)) = none := by
    rwa [ownMapped_iff, Option.not_isSome_iff_eq_none] at h
  simp only [derefSocklen, loadForeign, noteForeign, loadOwn, bind_apply, modify_apply, ask_apply,
    Outcome.andThen_done, hnone]
  rfl

end Length

/-! ### The four calls -/

/-- What the four calls ask. -/
def LindCall.valueRequest (env : Env) (m : ByteMemory) (r : UserRegs) : LindCall → Request
  | getsockname => getsocknameRequest m (argsOf r)
  | getsockopt => ⟨LIND_safe_net_getsockopt, [.int (cInt r.rdi), .int (cInt r.rsi),
      .int (cInt r.rdx)]⟩
  | accept => ⟨LIND_safe_net_accept, [.int (cInt r.rdi),
      .str (takenBytes env (memBlock 0 m r.rsi 3) (ownSocklen env m r.rdx))]⟩
  | _ => recvfromRequest (argsOf r)

/-- The buffers of `recvfrom`, copied back without anything received in them. -/
def unfilledBacks (r : UserRegs) : List CopyBack :=
  [⟨r.rsi, malloc 0 r.rdx.toNat, r.rdx⟩, ⟨r.r8, malloc 1 r.r9.toNat, r.r9⟩]

/-- When the four calls store their results right. `getsockname` and `getsockopt` copy as much of
the data as its length and theirs say, as `int`s. `accept` stores nothing. `recvfrom` halts, unless
the length of the payload is not positive as an `int`: then nothing is received. -/
def LindCall.KeepsValue (env : Env) (m : ByteMemory) (r : UserRegs) (v : ValueResult) (room : ℕ)
    (d data : List Byte) : LindCall → Prop
  | getsockname => ValueKept m v room d (copyLen (socklenAt m r.rdx) (wrapInt d.length))
  | getsockopt => OwnMapped env r.r8 ∧
      ValueKept m v room d (copyLen (ownSocklen env m r.r8) (wrapInt d.length))
  | accept => OwnMapped env r.rdx ∧ lengthBytes room = lengthBytes d.length
  | _ => wrapInt data.length ≤ 0 ∧ ∀ heap, ValueStored (InRange r.rsi r.rdx.toNat) v room d m
      (copyMem (env.withHeap heap) m (unfilledBacks r))

section Calls

variable {c : LindCall} {env : Env} {w w₀ w₁ : World} {t : Tracee} {v : ValueResult} {room : ℕ}
  {d data : List Byte} {resp : Response} {code : ℤ} {request : Request}

/-- A buffer that is filled and copied back, whatever is done before. -/
theorem emulated_fillWith {size : ℕ} {dst count : Word} {q : Block → Fetch (Request × ℤ)}
    {limit : ℤ} (hflag : w.entering = false)
    (he : c.emulation (argsOf t.regs) env (w.atLeave t) = fillWith size dst count q env w₀)
    (hq : fetch (q (malloc 0 size)) env w₀ = .done (request, limit) w₁)
    (hrequests : w₁.requests = w.requests) (hl : env.lind (request :: w.requests) = some resp) :
    match received env (malloc 0 size) limit (judge resp) with
    | none => ∃ u, emulated c.emulation env (w.atStop t) = .halt .corrupt u
    | some b => ∃ w', emulated c.emulation env (w.atStop t) = .done () w' ∧
        w'.tracee.mem = writeMem t.mem dst (b.wordAt env) count := by
  rw [fillWith_apply hq] at he
  have hverdict : verdictOn env w₁ request = some (judge resp) := by
    rw [verdictOn, hrequests, hl, Option.map_some]
  simp only [hverdict] at he
  split
  · rename_i hb
    simp only [hb] at he
    exact ⟨_, emulated_halt hflag he⟩
  · rename_i b hb
    simp only [hb] at he
    exact emulated_mem hflag he

/-- Where the call is emulated to its end, the memory it leaves decides. -/
theorem storesValue_iff_of_run {mem : (ℕ → ℕ → Byte) → ByteMemory}
    (hrun : ∀ heap, ∃ w', emulated c.emulation (env.withHeap heap) (w.atStop t) = .done () w' ∧
      w'.tracee.mem = mem heap) :
    StoresValue c env w t v room d ↔
      ∀ heap, ValueStored (c.WritesTo t.regs) v room d t.mem (mem heap) := by
  refine forall_congr' fun heap ↦ ?_
  obtain ⟨w', hdone, hmem⟩ := hrun heap
  rw [← hmem]
  exact Outcome.exists_done_and_iff hdone

theorem not_storesValue_of_halt {e : Halt} {u : World}
    (h : emulated c.emulation env (w.atStop t) = .halt e u) : ¬ StoresValue c env w t v room d := by
  intro hstores
  obtain ⟨w', hdone, -⟩ := hstores env.heap
  cases hdone.symm.trans h

/-- A structure that is filled with at most `limit` bytes, and copied back. -/
theorem storesValue_struct_iff (code : ℤ) {limit : ℤ} (hwrites : c.WritesTo t.regs = fun _ ↦ False)
    (hroom : BytesAt t.mem v.lenp (lengthBytes room))
    (hrun : ∀ heap, match received (env.withHeap heap) (malloc 0 sizeofSockaddr) limit
        (.success code d) with
      | none => ∃ u, emulated c.emulation (env.withHeap heap) (w.atStop t) = .halt .corrupt u
      | some b => ∃ w', emulated c.emulation (env.withHeap heap) (w.atStop t) = .done () w' ∧
          w'.tracee.mem = writeMem t.mem v.buf (b.wordAt (env.withHeap heap))
            (BitVec.ofNat 64 sizeofSockaddr)) :
    StoresValue c env w t v room d ↔
      ValueKept t.mem v room d (copyLen limit (wrapInt d.length)) := by
  have hiff (heap : ℕ → ℕ → Byte) : (received (env.withHeap heap) (malloc 0 sizeofSockaddr) limit
      (.success code d)).isSome ↔ Fits sizeofSockaddr limit d := by
    rw [isSome_received_iff, length_malloc]
  by_cases hfits : Fits sizeofSockaddr limit d
  · have hsome (heap : ℕ → ℕ → Byte) := Option.isSome_iff_exists.1 ((hiff heap).2 hfits)
    choose b hb using hsome
    simp only [hb] at hrun
    have hlen : copyLen limit (wrapInt d.length) ≤ d.length := by
      have hle := wrapInt_le_self (Int.natCast_nonneg d.length)
      rw [copyLen]
      split <;> omega
    have hbyte (heap : ℕ → ℕ → Byte) (k : ℕ) (hk : k < sizeofSockaddr) :
        (b heap).byteAt (env.withHeap heap) k =
          if (k : ℤ) < copyLen limit (wrapInt d.length) then d.getD k 0 else heap 0 k := by
      rw [byteAt_received_copied (hb heap), byteAt_malloc _ 0 hk]
      refine if_ctx_congr Iff.rfl (fun hlt ↦ ?_) fun _ ↦ rfl
      rw [payloadAt, if_pos (by omega), Int.toNat_natCast]
    rw [← forall_valueStored_iff hfits.1 hfits.2 hlen hroom hbyte, storesValue_iff_of_run hrun,
      hwrites]
  · have hnone := hrun env.heap
    rw [Option.not_isSome_iff_eq_none.1 (mt (hiff env.heap).1 hfits)] at hnone
    obtain ⟨u, hu⟩ := hnone
    exact iff_of_false (not_storesValue_of_halt hu) fun h ↦ hfits ⟨h.nonneg, h.le⟩

theorem storesValue_getsockname_iff (hflag : w.entering = false)
    (hroom : BytesAt t.mem t.regs.rdx (lengthBytes room))
    (hl : env.lind (getsocknameRequest t.mem (argsOf t.regs) :: w.requests) = some resp)
    (hjudge : judge resp = .success code d) :
    StoresValue .getsockname env w t ⟨t.regs.rsi, t.regs.rdx⟩ room d ↔
      ValueKept t.mem ⟨t.regs.rsi, t.regs.rdx⟩ room d
        (copyLen (socklenAt t.mem t.regs.rdx) (wrapInt d.length)) := by
  refine storesValue_struct_iff code rfl hroom fun heap ↦ ?_
  rw [← hjudge]
  have hl' : (env.withHeap heap).lind (getsocknameRequest t.mem (argsOf t.regs) :: w.requests) =
      some resp := hl
  exact emulated_fillWith (c := .getsockname) hflag
    (monitorGetsockname_apply (argsOf t.regs) (env.withHeap heap) (w.atLeave t))
    (fetch_pure _ _ _) rfl hl'

theorem storesValue_getsockopt_iff (hflag : w.entering = false)
    (hroom : BytesAt t.mem t.regs.r8 (lengthBytes room))
    (hl : env.lind (LindCall.getsockopt.valueRequest env t.mem t.regs :: w.requests) = some resp)
    (hjudge : judge resp = .success code d) :
    StoresValue .getsockopt env w t ⟨t.regs.r10, t.regs.r8⟩ room d ↔ OwnMapped env t.regs.r8 ∧
      ValueKept t.mem ⟨t.regs.r10, t.regs.r8⟩ room d
        (copyLen (ownSocklen env t.mem t.regs.r8) (wrapInt d.length)) := by
  by_cases hown : OwnMapped env t.regs.r8
  · rw [and_iff_right hown]
    refine storesValue_struct_iff code rfl hroom fun heap ↦ ?_
    have hq : lindGetsockopt (cInt t.regs.rdi) (cInt t.regs.rsi) (cInt t.regs.rdx)
        (.foreign t.regs.r8) (env.withHeap heap, t.mem) [] =
        .done (LindCall.getsockopt.valueRequest env t.mem t.regs, ownSocklen env t.mem t.regs.r8)
          [t.regs.r8] := by
      have hlen : ownSocklen (env.withHeap heap) t.mem t.regs.r8 = ownSocklen env t.mem t.regs.r8 :=
        ownSocklen_congr t.mem t.mem _ rfl
      rw [lindGetsockopt, bind_apply,
        derefSocklen_of_ownMapped (show OwnMapped (env.withHeap heap) t.regs.r8 from hown), hlen]
      rfl
    rw [← hjudge]
    have hl' : (env.withHeap heap).lind
        (LindCall.getsockopt.valueRequest env t.mem t.regs :: w.requests) = some resp := hl
    exact emulated_fillWith (c := .getsockopt)
      (q := fun _ ↦ lindGetsockopt (cInt t.regs.rdi) (cInt t.regs.rsi) (cInt t.regs.rdx)
        (.foreign t.regs.r8)) hflag rfl (fetch_done (w := w.atLeave t) hq) rfl hl'
  · have hq : lindGetsockopt (cInt t.regs.rdi) (cInt t.regs.rsi) (cInt t.regs.rdx)
        (.foreign t.regs.r8) (env, t.mem) [] = .halt (.segv t.regs.r8) [t.regs.r8] := by
      rw [lindGetsockopt, bind_apply, derefSocklen_of_not_ownMapped hown]
      rfl
    have hhalt : ∃ u, monitorGetsockopt (argsOf t.regs) env (w.atLeave t) =
        .halt (.segv t.regs.r8) u := by
      rw [monitorGetsockopt, fillWith, bind_apply, fetch_halt hq]
      exact ⟨_, rfl⟩
    obtain ⟨u, hu⟩ := hhalt
    have hemulated := emulated_halt (e := monitorGetsockopt) hflag hu
    exact iff_of_false (not_storesValue_of_halt (c := .getsockopt) hemulated) fun h ↦ hown h.1

/-- A call that returns a descriptor writes nothing. -/
theorem emulated_descriptor {q : SyscallArgs → Fetch Request} {log : List Word}
    (he : c.emulation = descriptor q) (hflag : w.entering = false)
    (hq : q (argsOf t.regs) (env, t.mem) [] = .done request log)
    (hl : env.lind (request :: w.requests) = some resp) :
    ∃ w', emulated c.emulation env (w.atStop t) = .done () w' ∧ w'.tracee.mem = t.mem := by
  have hrun : ∃ ret u,
      c.emulation (argsOf t.regs) env (w.atLeave t) = .done (some (ret, [])) u := by
    rw [he, descriptor, bind_apply, fetch_done (w := w.atLeave t) hq, Outcome.andThen_done,
      bind_apply, lindCall_apply, verdictOn_log hl]
    dsimp only
    rw [Outcome.andThen_done, enterDescriptor_apply]
    split
    · exact ⟨_, _, rfl⟩
    · exact ⟨_, _, rfl⟩
  obtain ⟨ret, u, hrun⟩ := hrun
  exact emulated_mem hflag hrun

theorem emulated_descriptor_halt {q : SyscallArgs → Fetch Request} {log : List Word} {e : Halt}
    (he : c.emulation = descriptor q) (hflag : w.entering = false)
    (hq : q (argsOf t.regs) (env, t.mem) [] = .halt e log) :
    ∃ u, emulated c.emulation env (w.atStop t) = .halt e u := by
  have hrun : ∃ u, c.emulation (argsOf t.regs) env (w.atLeave t) = .halt e u := by
    rw [he, descriptor, bind_apply, fetch_halt (w := w.atLeave t) hq]
    exact ⟨_, rfl⟩
  obtain ⟨u, hrun⟩ := hrun
  exact ⟨u, emulated_halt hflag hrun⟩

theorem takenBytes_withHeap (env : Env) (heap : ℕ → ℕ → Byte) (number : ℕ) (m : ByteMemory)
    (addr : Word) (n : ℤ) : takenBytes (env.withHeap heap) (memBlock number m addr 3) n =
      takenBytes env (memBlock number m addr 3) n := by
  rcases lt_or_ge n 0 with hneg | hnonneg
  · rw [takenBytes_memBlock_neg _ _ hneg, takenBytes_memBlock_neg _ _ hneg]
    rfl
  · rw [takenBytes_of_nonneg _ _ hnonneg, takenBytes_of_nonneg _ _ hnonneg]
    refine List.map_congr_left fun j _ ↦ ?_
    rcases Nat.lt_or_ge j 24 with hlt | hge
    · rw [byteAt_memBlock _ _ _ _ (by omega), byteAt_memBlock _ _ _ _ (by omega)]
    · rw [Block.byteAt, Block.byteAt, if_pos (Int.natCast_nonneg j), Int.toNat_natCast,
        List.getElem?_eq_none (by rw [length_memBlock]; omega)]
      rfl

/-- What `monitor_accept` fetches for its request. -/
def acceptFetch (r : SyscallArgs) : Fetch Request := do
  let addr ← getMem 0 r.arg2 (BitVec.ofNat 64 sizeofSockaddr)
  lindAccept (cInt r.arg1) (.block addr) (.foreign r.arg3)

theorem emulation_accept : LindCall.accept.emulation = descriptor acceptFetch := rfl

theorem acceptFetch_eq (env : Env) (m : ByteMemory) (r : UserRegs) :
    acceptFetch (argsOf r) (env, m) [] =
      lindAccept (cInt r.rdi) (.block (memBlock 0 m r.rsi 3)) (.foreign r.rdx) (env, m) [] := by
  have hsize : (BitVec.ofNat 64 sizeofSockaddr).toNat / 8 + 1 < 2 ^ 31 := by decide
  show (do
    let addr ← getMem 0 r.rsi (BitVec.ofNat 64 sizeofSockaddr)
    lindAccept (cInt r.rdi) (.block addr) (.foreign r.rdx) : Fetch Request) (env, m) [] = _
  rw [bind_apply, getMem_apply hsize, Outcome.andThen_done]
  rfl

theorem acceptFetch_of_ownMapped (hown : OwnMapped env t.regs.rdx) (heap : ℕ → ℕ → Byte) :
    acceptFetch (argsOf t.regs) (env.withHeap heap, t.mem) [] =
      .done (LindCall.accept.valueRequest env t.mem t.regs) [t.regs.rdx] := by
  have hlen : ownSocklen (env.withHeap heap) t.mem t.regs.rdx = ownSocklen env t.mem t.regs.rdx :=
    ownSocklen_congr t.mem t.mem _ rfl
  rw [acceptFetch_eq, lindAccept, bind_apply,
    derefSocklen_of_ownMapped (show OwnMapped (env.withHeap heap) t.regs.rdx from hown),
    Outcome.andThen_done, bind_apply, pyBytes_takenBytes, Outcome.andThen_done, hlen,
    LindCall.valueRequest, ← takenBytes_withHeap env heap]
  rfl

theorem acceptFetch_of_not_ownMapped (hown : ¬ OwnMapped env t.regs.rdx) :
    acceptFetch (argsOf t.regs) (env, t.mem) [] = .halt (.segv t.regs.rdx) [t.regs.rdx] := by
  rw [acceptFetch_eq, lindAccept, bind_apply, derefSocklen_of_not_ownMapped hown]
  rfl

/-- Nothing is stored: the length word must have the length of the data already. -/
theorem storesValue_accept_iff (hflag : w.entering = false)
    (hroom : BytesAt t.mem t.regs.rdx (lengthBytes room))
    (hl : env.lind (LindCall.accept.valueRequest env t.mem t.regs :: w.requests) = some resp) :
    StoresValue .accept env w t ⟨t.regs.rsi, t.regs.rdx⟩ room d ↔
      OwnMapped env t.regs.rdx ∧ lengthBytes room = lengthBytes d.length := by
  by_cases hown : OwnMapped env t.regs.rdx
  · have hrun (heap : ℕ → ℕ → Byte) : ∃ w',
        emulated LindCall.accept.emulation (env.withHeap heap) (w.atStop t) = .done () w' ∧
          w'.tracee.mem = t.mem := by
      have hl' : (env.withHeap heap).lind
          (LindCall.accept.valueRequest env t.mem t.regs :: w.requests) = some resp := hl
      exact emulated_descriptor emulation_accept hflag (acceptFetch_of_ownMapped hown heap) hl'
    rw [and_iff_right hown, storesValue_iff_of_run hrun]
    constructor
    · -- the bytes of the word are still those of the room
      intro h
      exact hroom.eq_of_length (h env.heap).length
        (by rw [length_lengthBytes, length_lengthBytes])
    · refine fun hlen _ ↦ ⟨fun x _ _ ↦ .inl rfl, ?_⟩
      rw [← hlen]
      exact hroom
  · obtain ⟨u, hu⟩ := emulated_descriptor_halt emulation_accept hflag
      (acceptFetch_of_not_ownMapped hown)
    exact iff_of_false (not_storesValue_of_halt hu) fun h ↦ hown h.1

/-- The length of the address, sent in four bytes, is to be stored through the tracee's pointer. -/
theorem not_partsFit_recvfrom {addrlen msg : List Byte} (hlen : addrlen.length = 4) (env : Env)
    (r : SyscallArgs) (rounds : ℕ) (offset : ℤ) :
    ¬ PartsFit (payloadAt env (frame [addrlen, msg, d])) (rounds + 1) 0 offset
      (recvfromDests r) := by
  rintro ⟨hcopy, -⟩
  have hfirst : lengthAt (payloadAt env (frame [addrlen, msg, d])) 0 = 4 := by
    have hpart : [addrlen, msg, d][0]? = some addrlen := rfl
    rw [lengthAt_frame env hpart, hlen]
    rfl
  rw [hfirst] at hcopy
  rcases hcopy with hzero | ⟨b, hb, -⟩
  · have hfour : copyLen 4 4 ≠ 0 := by decide
    exact hfour hzero
  · cases hb

/-- The destinations are left alone where the payload counts as empty, or else the copying halts. -/
theorem recvfromReceived_frame {addrlen : List Byte} (hlen : addrlen.length = 4)
    (msg d : List Byte) (code : ℤ) (env : Env) (m : ByteMemory) (r : SyscallArgs)
    (log : List Word) :
    let o := recvfromReceived r (.success code (frame [addrlen, msg, d])) (env, m) log
    if wrapInt (frame [addrlen, msg, d]).length ≤ 0 then
      o = .done ((recvfromDests r).map Dest.ptr) log
    else ∃ e log', o = .halt e log' := by
  intro o
  have ho : o = copyMultiLoop (payloadAt env (frame [addrlen, msg, d]))
      (wrapInt (frame [addrlen, msg, d]).length).toNat 0
      (wrapInt (4 * wrapInt (frame [addrlen, msg, d]).length)) (recvfromDests r) (env, m) log := rfl
  split
  · rename_i hle
    rw [ho, Int.toNat_eq_zero.2 hle]
    rfl
  · rename_i hpos
    obtain ⟨rounds, hrounds⟩ : ∃ rounds, (wrapInt (frame [addrlen, msg, d]).length).toNat =
        rounds + 1 := Nat.exists_eq_succ_of_ne_zero (by omega)
    have hno : ¬ PartsFit (payloadAt env (frame [addrlen, msg, d])) (rounds + 1) 0
        (wrapInt (4 * wrapInt (frame [addrlen, msg, d]).length)) (recvfromDests r) :=
      not_partsFit_recvfrom hlen env r rounds _
    rw [← returns_copyMultiLoop_iff _ _ _ _ _ (env, m) log, ← hrounds, ← ho] at hno
    rcases o with ⟨a, log'⟩ | ⟨e, log'⟩
    · exact absurd trivial hno
    · exact ⟨e, log', rfl⟩

theorem storesValue_recvfrom_iff (hflag : w.entering = false)
    (hl : env.lind (recvfromRequest (argsOf t.regs) :: w.requests) = some resp)
    (hjudge : judge resp = .success code data) (hdata : LindCall.recvfrom.Answers d data) :
    StoresValue .recvfrom env w t v room d ↔ wrapInt data.length ≤ 0 ∧ ∀ heap,
      ValueStored (InRange t.regs.rsi t.regs.rdx.toNat) v room d t.mem
        (copyMem (env.withHeap heap) t.mem (unfilledBacks t.regs)) := by
  obtain ⟨addrlen, msg, hlen, rfl⟩ := hdata
  have hmonitor (heap : ℕ → ℕ → Byte) := monitorRecvfrom_apply (argsOf t.regs) (env.withHeap heap)
    (w.atLeave t)
  have hverdict (heap : ℕ → ℕ → Byte) : verdictOn (env.withHeap heap) (w.atLeave t)
      (recvfromRequest (argsOf t.regs)) = some (judge resp) := by
    show (env.lind (recvfromRequest (argsOf t.regs) :: w.requests)).map judge = _
    rw [hl, Option.map_some]
  simp only [hverdict, hjudge] at hmonitor
  set u := (w.atLeave t).answered (recvfromRequest (argsOf t.regs))
    (.success code (frame [addrlen, msg, d]))
  have hreceived (heap : ℕ → ℕ → Byte) := recvfromReceived_frame hlen msg d code
    (env.withHeap heap) u.tracee.mem (argsOf t.regs) []
  dsimp only at hreceived
  rcases lt_or_ge 0 (wrapInt (frame [addrlen, msg, d]).length) with hpos | hle
  · have hhalt := hreceived env.heap
    rw [if_neg (not_le.2 hpos)] at hhalt
    obtain ⟨e, log, hq⟩ := hhalt
    have hrun := hmonitor env.heap
    rw [fetch_halt hq] at hrun
    have hemulated := emulated_halt (e := monitorRecvfrom) hflag hrun
    exact iff_of_false (not_storesValue_of_halt (c := .recvfrom) hemulated) fun h ↦
      not_le.2 hpos h.1
  · -- nothing is received, and both buffers are copied back as they were allocated
    rw [and_iff_right hle]
    simp only [if_pos hle] at hreceived
    have hrun (heap : ℕ → ℕ → Byte) : ∃ w',
        emulated monitorRecvfrom (env.withHeap heap) (w.atStop t) = .done () w' ∧
          w'.tracee.mem = copyMem (env.withHeap heap) t.mem (unfilledBacks t.regs) := by
      have happly := hmonitor heap
      rw [fetch_done (hreceived heap)] at happly
      exact emulated_mem (c := .recvfrom) hflag happly
    exact storesValue_iff_of_run (c := .recvfrom) hrun

/-- **Value-result lengths.** The handlers store address and option data, and its length, as they
should exactly where `KeepsValue` says so. -/
theorem stores_value_iff (hv : c.valueResult t.regs = some v) (hflag : w.entering = false)
    (hroom : BytesAt t.mem v.lenp (lengthBytes room))
    (hl : env.lind (c.valueRequest env t.mem t.regs :: w.requests) = some resp)
    (hjudge : judge resp = .success code data) (hdata : c.Answers d data) :
    StoresValue c env w t v room d ↔ c.KeepsValue env t.mem t.regs v room d data := by
  cases c with
  | getsockname =>
    cases hv
    obtain rfl := hdata
    exact storesValue_getsockname_iff hflag hroom hl hjudge
  | getsockopt =>
    cases hv
    obtain rfl := hdata
    exact storesValue_getsockopt_iff hflag hroom hl hjudge
  | accept =>
    cases hv
    exact storesValue_accept_iff hflag hroom hl
  | recvfrom => exact storesValue_recvfrom_iff hflag hl hjudge hdata
  | _ => cases hv

end Calls

/-- A tracee that asks for the name of a socket, with room for as many bytes, in a memory of zeros
but for that. -/
def socknameTracee (room : Byte) : Tracee :=
  ⟨{ callRegs 51 with rdi := 3, rsi := 64, rdx := 96 },
    { zeroMemory with byte := fun x ↦ some (if x = 96 then room else 0) }⟩

theorem bytesAt_socknameTracee :
    BytesAt (socknameTracee 16).mem 96 (lengthBytes 16) := fun i hi ↦ by
  rw [length_lengthBytes] at hi
  interval_cases i <;> rfl

/-- Sixteen bytes, of which sixteen are asked for. -/
theorem stores_value_iff_getsockname :
    StoresValue .getsockname (dataEnv (List.replicate 16 1)) zeroWorld (socknameTracee 16) ⟨64, 96⟩
        16 (List.replicate 16 1) ↔
      LindCall.getsockname.KeepsValue (dataEnv (List.replicate 16 1)) (socknameTracee 16).mem
        (socknameTracee 16).regs ⟨64, 96⟩ 16 (List.replicate 16 1) (List.replicate 16 1) :=
  stores_value_iff (c := .getsockname) (t := socknameTracee 16) rfl rfl bytesAt_socknameTracee rfl
    (judge_dataEnv (by decide)) rfl

/-- Of an address of eight bytes, sixteen are copied. -/
theorem not_stores_value : ¬ ∀ (c : LindCall) (env : Env) (w : World) (t : Tracee) (v : ValueResult)
    (room : ℕ) (d data : List Byte) (resp : Response) (code : ℤ), c.valueResult t.regs = some v →
      w.entering = false → room < 2 ^ 32 → BytesAt t.mem v.lenp (lengthBytes room) →
      env.lind (c.valueRequest env t.mem t.regs :: w.requests) = some resp →
      judge resp = .success code data → c.Answers d data → StoresValue c env w t v room d := by
  intro h
  have hjudge : judge (successResponse _ (List.replicate 8 1)) = .success _ _ :=
    judge_dataEnv (by decide)
  have hstores := h .getsockname (dataEnv (List.replicate 8 1)) zeroWorld (socknameTracee 16)
    ⟨64, 96⟩ 16 _ _ _ _ rfl rfl (by decide) bytesAt_socknameTracee rfl hjudge rfl
  have hkept := (storesValue_getsockname_iff (t := socknameTracee 16) rfl bytesAt_socknameTracee rfl
    hjudge).1 hstores
  have hpoke : (socknameTracee 16).mem.Pokeable (wordAddr 64 (8 / 8 : ℕ)) :=
    ⟨fun _ _ ↦ rfl, fun _ _ ↦ rfl⟩
  have hlt := (hkept.written 8 (by decide) hpoke).1
  rw [copyLen] at hlt
  have height : wrapInt (List.replicate 8 (1 : Byte)).length = 8 := by decide
  rw [height] at hlt
  split at hlt <;> omega

end ReferenceMonitor
