import ReferenceMonitor.Monitor.Paths
import ReferenceMonitor.Monitor.ReadBack
import ReferenceMonitor.Platform.Encoding
import ReferenceMonitor.System.Rounds

/-!
# Arguments that reach Lind

`bind`, `connect`, `sendto` and `setsockopt` pass Lind strings from the tracee's memory. Their
handlers fetch as many bytes as a `struct lind_sockaddr` has, and one word more; their wrappers take
as many bytes of the copy as the tracee says. `monitor_sendto` looks for the address where the data
is, and takes the pointer to it for its length.

`fcntl` passes Lind no argument of its own at all: the handler calls the variadic wrapper without
one.
-/

namespace ReferenceMonitor

open Halting

/-! ### Strings -/

/-- A string a call is to send: its element of the request, and where the tracee has it. -/
structure Input where
  element : ℕ
  ptr : Word
  len : Word

/-- The strings of a call. -/
def LindCall.inputs (r : UserRegs) : LindCall → List Input
  | bind | connect => [⟨2, r.rsi, r.rdx⟩]
  | sendto => [⟨3, r.r8, r.r9⟩, ⟨4, r.rsi, r.rdx⟩]
  | setsockopt => [⟨3, r.r10, r.r8⟩]
  | _ => []

/-- The calls that send strings. -/
def inputCalls : List LindCall := [.bind, .connect, .sendto, .setsockopt]

/-- The bytes are mapped, with the words around them, and an `int` counts them. -/
structure Input.Present (m : ByteMemory) (i : Input) : Prop where
  fits : i.len.toNat < 2 ^ 31
  mapped : ∀ j < i.len.toNat, m.Mapped (wordAddr i.ptr (j / 8 : ℕ))

/-- The request has the bytes in their place. -/
def Input.SentIn (m : ByteMemory) (i : Input) (r : Request) : Prop :=
  ∃ bytes, r.args[i.element]? = some (.str bytes) ∧ bytes.length = i.len.toNat ∧
    BytesAt m i.ptr bytes

/-- The same with something else around the monitor's blocks. -/
def Env.withAround (env : Env) (around : ℕ → ℤ → Byte) (strings : ℕ → List Byte) : Env :=
  { env with around := around, aroundString := strings }

/-- The call sends its strings, whatever lies around the monitor's blocks. -/
def SendsInputs (c : LindCall) (env : Env) (w : World) (t : Tracee) : Prop :=
  ∀ around strings, ∃ request,
    (emulated c.emulation (env.withAround around strings) (w.atStop t)).state.requests =
        request :: w.requests ∧
      ∀ i ∈ c.inputs t.regs, i.SentIn t.mem request

/-! ### What is taken of a copy -/

/-- A byte of the copy `get_mem` makes. -/
def copiedAt (m : ByteMemory) (addr : Word) (j : ℕ) : Byte :=
  byteOf (peekData m (wordAddr addr (j / 8 : ℕ))) (j % 8)

theorem some_copiedAt {m : ByteMemory} {addr : Word} {j : ℕ}
    (h : m.Mapped (wordAddr addr (j / 8 : ℕ))) :
    some (copiedAt m addr j) = m.byte (addr + BitVec.ofNat 64 j) := by
  rw [copiedAt, byteOf_peekData h (by omega), wordAddr_add]

/-- The first `len` bytes of what is taken from a copy of three words, with the length `n`, are
those at `ptr`: there are no more of them than the copy has, they are the same there, and `n` is
their number, or is negative and a zero is next in the copy. -/
structure TakenRight (m : ByteMemory) (addr : Word) (n : ℤ) (ptr : Word) (len : ℕ) : Prop where
  le : len ≤ 24
  same : ∀ j < len, m.byte (ptr + BitVec.ofNat 64 j) = some (copiedAt m addr j)
  stops : n = len ∨ n < 0 ∧ len < 24 ∧ (∀ j < len, copiedAt m addr j ≠ 0) ∧ copiedAt m addr len = 0

section Taken

variable {m : ByteMemory} {addr : Word}

/-- A list up to its first zero. -/
theorem takeWhile_of_zero {f : ℕ → Byte} {i n : ℕ} (hi : i < n) (hzero : f i = 0)
    (hne : ∀ j < i, f j ≠ 0) (rest : List Byte) :
    ((List.range n).map f ++ rest).takeWhile (· ≠ 0) = (List.range i).map f := by
  obtain ⟨k, rfl⟩ := Nat.exists_eq_add_of_lt hi
  have hfirst : ∀ b ∈ (List.range i).map f, (decide (b ≠ 0)) = true := by
    intro b hb
    obtain ⟨j, hj, rfl⟩ := List.mem_map.1 hb
    exact decide_eq_true (hne j (List.mem_range.1 hj))
  rw [show i + k + 1 = i + (k + 1) by omega, List.range_add, List.map_append, List.append_assoc,
    List.takeWhile_append_of_pos hfirst, List.range_succ_eq_map]
  simp [hzero]

/-- A list without zeros, and what follows it. -/
theorem takeWhile_of_ne {f : ℕ → Byte} {n : ℕ} (hne : ∀ j < n, f j ≠ 0) (rest : List Byte) :
    ((List.range n).map f ++ rest).takeWhile (· ≠ 0) =
      (List.range n).map f ++ rest.takeWhile (· ≠ 0) := by
  refine List.takeWhile_append_of_pos fun b hb ↦ ?_
  obtain ⟨j, hj, rfl⟩ := List.mem_map.1 hb
  exact decide_eq_true (hne j (List.mem_range.1 hj))

theorem bytes_memBlock (env : Env) (number : ℕ) (m : ByteMemory) (addr : Word) (n : ℕ) :
    (memBlock number m addr n).bytes env = (List.range (8 * n)).map (copiedAt m addr) := by
  refine List.ext_getElem? fun j ↦ ?_
  rw [Block.bytes, List.getElem?_map, List.getElem?_map]
  rcases Nat.lt_or_ge j (8 * n) with hlt | hge
  · have hcell := cells_memBlock number m addr (n := n) (i := j / 8) (j := j % 8) (by omega)
      (by omega)
    rw [show 8 * (j / 8) + j % 8 = j by omega] at hcell
    rw [hcell, List.getElem?_range hlt]
    rfl
  · rw [List.getElem?_eq_none (by rwa [length_memBlock]),
      List.getElem?_eq_none (by rwa [List.length_range])]
    rfl

/-- A string of the length that was asked for. -/
theorem takenBytes_of_nonneg (env : Env) (b : Block) {n : ℤ} (h : 0 ≤ n) :
    takenBytes env b n = (List.range n.toNat).map fun j : ℕ ↦ b.byteAt env j := if_pos h

/-- A C string of the copy: up to its first zero, if there is one. -/
theorem takenBytes_memBlock_neg (env : Env) (number : ℕ) {n : ℤ} (h : n < 0) :
    takenBytes env (memBlock number m addr 3) n =
      ((List.range 24).map (copiedAt m addr) ++ env.aroundString number).takeWhile (· ≠ 0) := by
  rw [takenBytes, if_neg (not_le.2 h), cString, bytes_memBlock]
  rfl

/-- The copy of a range that is mapped has its bytes. -/
theorem bytesAt_takenBytes (env : Env) (number : ℕ) {len n : ℕ} (hn : len ≤ 8 * n)
    (hmapped : ∀ j < len, m.Mapped (wordAddr addr (j / 8 : ℕ))) :
    (takenBytes env (memBlock number m addr n) len).length = len ∧
      BytesAt m addr (takenBytes env (memBlock number m addr n) len) := by
  rw [takenBytes_of_nonneg _ _ (Int.natCast_nonneg len), Int.toNat_natCast, List.length_map,
    List.length_range, BytesAt, List.length_map, List.length_range]
  refine ⟨rfl, fun j hj ↦ ?_⟩
  rw [List.getD_eq_getElem?_getD, List.getElem?_map, List.getElem?_range hj, ←
    some_copiedAt (hmapped j hj), copiedAt, ← byteAt_memBlock env number m addr (n := n) (by omega)]
  rfl

theorem getD_takenBytes (env : Env) (b : Block) {n : ℤ} {j : ℕ} (hj : j < n) :
    (takenBytes env b n).getD j 0 = b.byteAt env j := by
  rw [takenBytes_of_nonneg env b (by omega), List.getD_eq_getElem?_getD, List.getElem?_map,
    List.getElem?_range (by omega)]
  rfl

theorem length_takenBytes (env : Env) (b : Block) {n : ℤ} (h : 0 ≤ n) :
    ((takenBytes env b n).length : ℤ) = n := by
  rw [takenBytes, if_pos h, length_sentBytes env b h]

/-- The bytes of a string that was cut at a zero are not. -/
theorem TakenRight.takenBytes_eq {n : ℤ} {ptr : Word} {len : ℕ} (h : TakenRight m addr n ptr len)
    (env : Env) (number : ℕ) :
    takenBytes env (memBlock number m addr 3) n = (List.range len).map (copiedAt m addr) := by
  have hle := h.le
  rcases h.stops with rfl | ⟨hneg, hlt, hne, hzero⟩
  · rw [takenBytes_of_nonneg _ _ (Int.natCast_nonneg len), Int.toNat_natCast]
    refine List.map_congr_left fun j hj ↦ ?_
    rw [List.mem_range] at hj
    exact byteAt_memBlock env number m addr (by omega)
  · rw [takenBytes_memBlock_neg env number hneg]
    exact takeWhile_of_zero hlt hzero hne _

/-- The bytes taken of a copy of three words are right, whatever lies around the copy. -/
def TakenAnyhow (m : ByteMemory) (addr : Word) (env : Env) (number : ℕ) (n : ℤ) (ptr : Word)
    (len : ℕ) : Prop :=
  ∀ around strings,
    let bytes := takenBytes (env.withAround around strings) (memBlock number m addr 3) n
    bytes.length = len ∧ BytesAt m ptr bytes

section TakenAnyhow

variable {env : Env} {number : ℕ} {n : ℤ} {ptr : Word} {len : ℕ}

/-- A string that does not end in the copy has an end that is up to what is behind it. -/
theorem exists_zero_of_takenAnyhow (hneg : n < 0) (h : TakenAnyhow m addr env number n ptr len) :
    ∃ i < 24, copiedAt m addr i = 0 := by
  by_contra hno
  push Not at hno
  have hlen (rest : List Byte) : 24 + (rest.takeWhile (· ≠ 0)).length = len := by
    have hrest := (h (fun _ _ ↦ 0) fun _ ↦ rest).1
    rw [takenBytes_memBlock_neg _ _ hneg, takeWhile_of_ne hno, List.length_append,
      List.length_map, List.length_range] at hrest
    exact hrest
  have hnil := hlen []
  have hone := hlen [1]
  rw [List.takeWhile_nil, List.length_nil] at hnil
  rw [show ([1] : List Byte).takeWhile (· ≠ 0) = [1] from rfl, List.length_singleton] at hone
  omega

/-- Without a length, the first zero of the copy is where the string ends. -/
theorem takenRight_of_neg (hneg : n < 0) (h : TakenAnyhow m addr env number n ptr len) :
    TakenRight m addr n ptr len := by
  have hzero := exists_zero_of_takenAnyhow hneg h
  classical
  obtain ⟨hlt, hfirst⟩ := Nat.find_spec hzero
  have hne : ∀ j < Nat.find hzero, copiedAt m addr j ≠ 0 := fun j hj hj0 ↦
    Nat.find_min hzero hj ⟨by omega, hj0⟩
  obtain ⟨hlen, hbytes⟩ := h env.around env.aroundString
  rw [takenBytes_memBlock_neg _ _ hneg, takeWhile_of_zero hlt hfirst hne] at hlen hbytes
  rw [List.length_map, List.length_range] at hlen
  rw [← hlen]
  refine ⟨hlt.le, fun j hj ↦ ?_, .inr ⟨hneg, hlt, hne, hfirst⟩⟩
  rw [hbytes j (by rwa [List.length_map, List.length_range]), List.getD_eq_getElem?_getD,
    List.getElem?_map, List.getElem?_range hj]
  rfl

/-- With a length, the copy must have as many bytes: the one behind it could be any. -/
theorem takenRight_of_nonneg (hnonneg : 0 ≤ n) (h : TakenAnyhow m addr env number n ptr len) :
    TakenRight m addr n ptr len := by
  have hn : n = len := by
    rw [← (h env.around env.aroundString).1, length_takenBytes _ _ hnonneg]
  subst hn
  have hbyte (around : ℕ → ℤ → Byte) (j : ℕ) (hj : j < len) :
      m.byte (ptr + BitVec.ofNat 64 j) = some
        ((memBlock number m addr 3).byteAt (env.withAround around env.aroundString) j) := by
    obtain ⟨hlen, hbytes⟩ := h around env.aroundString
    rw [hbytes j (by omega), getD_takenBytes _ _ (by omega)]
  have hle : len ≤ 24 := by
    by_contra hgt
    -- the byte of the copy that would be the next one is the block's neighbour
    have hbehind (β : Byte) : m.byte (ptr + BitVec.ofNat 64 24) = some β := by
      rw [hbyte (fun _ _ ↦ β) 24 (by omega), Block.byteAt, if_pos (by decide),
        List.getElem?_eq_none (by rw [length_memBlock]; decide)]
      rfl
    exact absurd ((hbehind 0).symm.trans (hbehind 1)) (by decide)
  refine ⟨hle, fun j hj ↦ ?_, .inl rfl⟩
  rw [hbyte env.around j hj, byteAt_memBlock _ _ _ _ (by omega)]
  rfl

theorem TakenRight.anyhow (h : TakenRight m addr n ptr len) (env : Env) (number : ℕ) :
    TakenAnyhow m addr env number n ptr len := by
  intro around strings bytes
  have hbytes : bytes = (List.range len).map (copiedAt m addr) := h.takenBytes_eq _ number
  rw [hbytes, List.length_map, List.length_range]
  refine ⟨rfl, fun j hj ↦ ?_⟩
  rw [List.length_map, List.length_range] at hj
  rw [h.same j hj, List.getD_eq_getElem?_getD, List.getElem?_map, List.getElem?_range hj]
  rfl

/-- A copy of three words that is taken with a length: the bytes are right whatever lies around the
copy exactly where they do not depend on it. -/
theorem takenRight_iff (env : Env) (number : ℕ) :
    TakenAnyhow m addr env number n ptr len ↔ TakenRight m addr n ptr len :=
  ⟨fun h ↦ (lt_or_ge n 0).elim (takenRight_of_neg · h) (takenRight_of_nonneg · h),
    fun h ↦ h.anyhow env number⟩

end TakenAnyhow

/-- Taken where it was copied from, with its own length: there must only be enough copied. -/
theorem takenRight_self_iff {len : ℕ}
    (hmapped : ∀ j < len, m.Mapped (wordAddr addr (j / 8 : ℕ))) :
    TakenRight m addr len addr len ↔ len ≤ 24 :=
  ⟨fun h ↦ h.le, fun h ↦ ⟨h, fun j hj ↦ (some_copiedAt (hmapped j hj)).symm, .inl rfl⟩⟩

end Taken

/-! ### What is sent -/

/-- The four calls send their strings right: there is room in the copy for all of the address or
option, and `sendto` finds the address where it takes it from. -/
def InputsKept (m : ByteMemory) (r : UserRegs) : LindCall → Prop
  | .bind | .connect => r.rdx.toNat ≤ 24
  | .sendto => TakenRight m r.rsi (cInt r.r8) r.r8 r.r9.toNat
  | .setsockopt => r.r8.toNat ≤ 24
  | _ => True

/-- What such a call asks, by what it takes of the memory. -/
def inputRequest (env : Env) (m : ByteMemory) (r : UserRegs) : LindCall → Request
  | .bind => ⟨LIND_safe_net_bind, [.int (cInt r.rdi), .int (cInt r.rdx),
      .str (takenBytes env (memBlock 0 m r.rsi 3) (cInt r.rdx))]⟩
  | .connect => ⟨LIND_safe_net_connect, [.int (cInt r.rdi), .int (cInt r.rdx),
      .str (takenBytes env (memBlock 0 m r.rsi 3) (cInt r.rdx))]⟩
  | .sendto => ⟨LIND_safe_net_sendto, [.int (cInt r.rdi), .int (cInt r.rdx), .int (cInt r.r8),
      .str (takenBytes env (memBlock 1 m r.rsi 3) (cInt r.r8)),
      .str (takenBytes env (memBlock 0 m r.rsi (r.rdx.toNat / 8 + 1)) (cInt r.rdx))]⟩
  | _ => ⟨LIND_safe_net_setsockopt, [.int (cInt r.rdi), .int (cInt r.rsi), .int (cInt r.rdx),
      .str (takenBytes env (memBlock 0 m r.r10 3) (cInt r.r8)), .int (cInt r.r8)]⟩

section Sends

variable {c : LindCall} {env : Env} {w : World} {t : Tracee}

/-- The data and the address of `sendto` are read at one place. -/
theorem sendto_done (env : Env) (m : ByteMemory) (r : UserRegs) (hlen : r.rdx.toNat < 2 ^ 31) :
    (do
      let data ← getMem 0 r.rsi r.rdx
      let addr ← getMem 1 r.rsi (BitVec.ofNat 64 sizeofSockaddr)
      lindSendto (cInt r.rdi) (.block data) (cInt r.rdx) (.block addr) (cInt r.r8) : Fetch Request)
        (env, m) [] = .done (inputRequest env m r .sendto) [] := by
  have hsockaddr : (BitVec.ofNat 64 sizeofSockaddr).toNat / 8 + 1 < 2 ^ 31 := by decide
  rw [bind_apply, getMem_apply (by omega), Outcome.andThen_done, bind_apply,
    getMem_apply hsockaddr, Outcome.andThen_done, lindSendto, bind_apply, pyBytes_takenBytes,
    Outcome.andThen_done, bind_apply, pyBytes_takenBytes]
  rfl

theorem requests_input (hc : c ∈ inputCalls) (hflag : w.entering = false)
    (hpresent : ∀ i ∈ c.inputs t.regs, i.Present t.mem) (env : Env) :
    (emulated c.emulation env (w.atStop t)).state.requests =
      inputRequest env t.mem t.regs c :: w.requests := by
  have hsockaddr : (BitVec.ofNat 64 sizeofSockaddr).toNat / 8 + 1 < 2 ^ 31 := by decide
  rw [requests_emulated _ (show (w.atStop t).entering = false from hflag)]
  simp only [inputCalls, List.mem_cons, List.not_mem_nil, or_false] at hc
  rcases hc with rfl | rfl | rfl | rfl
  · refine requests_status (w := w.atLeave t) (fetch_silent ?_)
    rw [bind_apply, getMem_apply hsockaddr, Outcome.andThen_done, lindBind, bind_apply,
      pyBytes_takenBytes]
    rfl
  · refine requests_status (w := w.atLeave t) (fetch_silent ?_)
    rw [bind_apply, getMem_apply hsockaddr, Outcome.andThen_done, lindConnect, bind_apply,
      pyBytes_takenBytes]
    rfl
  · -- `sendto` fetches its data besides
    have hdata : t.regs.rdx.toNat < 2 ^ 31 :=
      (hpresent ⟨4, t.regs.rsi, t.regs.rdx⟩ (by simp [LindCall.inputs])).fits
    exact requests_status (w := w.atLeave t)
      (fetch_done (w := w.atLeave t) (sendto_done env t.mem t.regs hdata))
  · refine requests_status (w := w.atLeave t) (fetch_silent ?_)
    rw [bind_apply, getMem_apply hsockaddr, Outcome.andThen_done, lindSetsockopt, bind_apply,
      pyBytes_takenBytes]
    rfl

theorem sentIn_iff {m : ByteMemory} {i : Input} {request : Request} {bytes : List Byte}
    (h : request.args[i.element]? = some (.str bytes)) :
    i.SentIn m request ↔ bytes.length = i.len.toNat ∧ BytesAt m i.ptr bytes := by
  constructor
  · rintro ⟨_, hargs, hsent⟩
    rw [h] at hargs
    cases hargs
    exact hsent
  · exact fun hsent ↦ ⟨bytes, h, hsent⟩

/-- A string that is taken with its own length of a copy from its own place. -/
theorem forall_sentIn_iff {m : ByteMemory} {i : Input} (request : Env → Request) (number : ℕ)
    (hi : i.Present m) (hargs : ∀ env, (request env).args[i.element]? =
      some (.str (takenBytes env (memBlock number m i.ptr 3) (cInt i.len)))) :
    (∀ around strings, i.SentIn m (request (env.withAround around strings))) ↔
      i.len.toNat ≤ 24 := by
  rw [← takenRight_self_iff hi.mapped, ← takenRight_iff env number, ← cInt_eq_toNat hi.fits]
  exact forall₂_congr fun _ _ ↦ sentIn_iff (hargs _)

/-- **Input strings.** Each is the tracee's bytes, whatever lies around the monitor's blocks,
exactly where there is room in the copy, and `sendto` finds the address where it takes it from. -/
theorem sends_inputs_iff (hc : c ∈ inputCalls) (hflag : w.entering = false)
    (hpresent : ∀ i ∈ c.inputs t.regs, i.Present t.mem) :
    SendsInputs c env w t ↔ InputsKept t.mem t.regs c := by
  have hrequests (around strings) := requests_input (c := c) hc hflag hpresent
    (env.withAround around strings)
  have hiff : SendsInputs c env w t ↔ ∀ around strings, ∀ i ∈ c.inputs t.regs,
      i.SentIn t.mem (inputRequest (env.withAround around strings) t.mem t.regs c) := by
    refine forall₂_congr fun around strings ↦ ?_
    rw [hrequests]
    constructor
    · rintro ⟨request, hrequest, hsent⟩
      cases hrequest
      exact hsent
    · exact fun hsent ↦ ⟨_, rfl, hsent⟩
  rw [hiff]
  simp only [inputCalls, List.mem_cons, List.not_mem_nil, or_false] at hc
  rcases hc with rfl | rfl | rfl | rfl
  · simp only [LindCall.inputs, List.forall_mem_singleton] at hpresent ⊢
    exact forall_sentIn_iff (fun env ↦ inputRequest env t.mem t.regs .bind) 0 hpresent fun _ ↦ rfl
  · simp only [LindCall.inputs, List.forall_mem_singleton] at hpresent ⊢
    exact forall_sentIn_iff (fun env ↦ inputRequest env t.mem t.regs .connect) 0 hpresent
      fun _ ↦ rfl
  · simp only [LindCall.inputs, List.forall_mem_cons, List.not_mem_nil, false_imp_iff, implies_true,
      and_true, forall_and] at hpresent ⊢
    obtain ⟨-, hdata⟩ := hpresent
    rw [and_iff_left]
    · -- the address comes from where the data is, with the pointer to it for its length
      refine Iff.trans (forall₂_congr fun _ _ ↦ sentIn_iff rfl) ?_
      exact takenRight_iff env 1
    · -- the data is copied in full
      intro around strings
      rw [sentIn_iff rfl, cInt_eq_toNat hdata.fits]
      exact bytesAt_takenBytes _ 0 (by dsimp only; omega) hdata.mapped
  · simp only [LindCall.inputs, List.forall_mem_singleton] at hpresent ⊢
    exact forall_sentIn_iff (fun env ↦ inputRequest env t.mem t.regs .setsockopt) 0 hpresent
      fun _ ↦ rfl

end Sends

/-- A tracee that passes a buffer and an address, in a memory of zeros. -/
def socketTracee (addr len : Word) : Tracee :=
  ⟨{ callRegs 44 with rdi := 3, rsi := 64, rdx := 16, r8 := addr, r9 := len }, zeroMemory⟩

theorem present_zeroMemory {i : Input} (h : i.len.toNat < 2 ^ 31) : i.Present zeroMemory :=
  ⟨h, fun _ _ _ _ ↦ rfl⟩

/-- An address of sixteen bytes. -/
theorem sends_inputs_iff_connect :
    SendsInputs .connect Env.blank zeroWorld (socketTracee 0 0) ↔
      InputsKept zeroMemory (socketTracee 0 0).regs .connect :=
  sends_inputs_iff (by decide) rfl fun i hi ↦ by
    rw [List.mem_singleton.1 hi]
    exact present_zeroMemory (by decide)

/-- `sendto` takes the pointer to the address for its length. -/
theorem not_sends_inputs : ¬ ∀ (c : LindCall) (env : Env) (w : World) (t : Tracee),
    c ∈ inputCalls → w.entering = false → (∀ i ∈ c.inputs t.regs, i.Present t.mem) →
      SendsInputs c env w t := by
  intro h
  have hpresent : ∀ i ∈ LindCall.sendto.inputs (socketTracee 128 16).regs,
      i.Present (socketTracee 128 16).mem := by
    intro i hi
    refine present_zeroMemory ?_
    rcases List.mem_cons.1 hi with rfl | hi
    · decide
    · rw [List.mem_singleton.1 hi]
      decide
  have hsends := h .sendto Env.blank zeroWorld (socketTracee 128 16) (by decide) rfl hpresent
  rw [sends_inputs_iff (by decide) rfl hpresent] at hsends
  rcases hsends.stops with heq | ⟨hneg, -⟩
  · exact absurd heq (by decide)
  · exact absurd hneg (by decide)

/-! ### The third argument of `fcntl` -/

def F_DUPFD : ℤ := 0
def F_SETFD : ℤ := 2
def F_SETFL : ℤ := 4
def F_GETLK : ℤ := 5
def F_SETLK : ℤ := 6

/-- What the third argument of `fcntl` is to Lind: the integer, or the `struct flock` it points
at. -/
inductive FcntlArg (t : Tracee) : PyVal → Prop
  | integer : cInt t.regs.rsi ∈ [F_DUPFD, F_SETFD, F_SETFL] → FcntlArg t (.int (cInt t.regs.rdx))
  | lock {bytes : List Byte} : cInt t.regs.rsi ∈ [F_GETLK, F_SETLK] →
      bytes.length = sizeofFlock → BytesAt t.mem t.regs.rdx bytes → FcntlArg t (.str bytes)

/-- The same with something else behind the arguments that were passed. -/
def Env.withVararg (env : Env) (v : Word) : Env := { env with vararg := v }

/-- The request has the argument behind the descriptor and the command, whatever `va_arg` finds that
was not passed. -/
def FcntlForwards (env : Env) (w : World) (t : Tracee) (v : PyVal) : Prop :=
  ∀ vararg, ∃ request,
    (emulated monitorFcntl (env.withVararg vararg) (w.atStop t)).state.requests =
      request :: w.requests ∧ v ∈ request.args.drop 2

section Fcntl

variable {env : Env} {w : World} {t : Tracee}

/-- `lind_fcntl`, command by command. -/
theorem lindFcntl_apply (fd cmd : ℤ) (p : Env × ByteMemory) (log : List Word) :
    lindFcntl fd cmd p log =
      if cmd = F_DUPFD then
        .done ⟨LIND_safe_fs_fcntl, [.int fd, .int cmd, .int (cInt p.1.vararg)]⟩ log
      else if cmd = F_SETLK then
        (pyBytes (.stray p.1.vararg) sizeofFlock p log).andThen fun v log ↦
          .done ⟨LIND_safe_fs_fcntl, [.int fd, .int cmd, v]⟩ log
      else .done ⟨LIND_safe_fs_fcntl, [.int fd, .int cmd]⟩ log := by
  rw [lindFcntl, bind_apply, ask_apply, Outcome.andThen_done]
  dsimp only
  rw [ite_run, ite_run]
  rfl

/-- The monitor's own memory is not the tracee's. -/
theorem loadOwn_congr (env : Env) (a : Word) (n : ℕ) (m m' : ByteMemory) (log : List Word) :
    loadOwn a n (env, m) log = loadOwn a n (env, m') log := by
  rw [loadOwn, bind_apply, bind_apply, ask_apply, ask_apply, Outcome.andThen_done,
    Outcome.andThen_done]
  dsimp only
  cases (List.range n).mapM fun i ↦ env.own (a + BitVec.ofNat 64 i) <;> rfl

/-- `lind_fcntl` does not look at the tracee's memory. -/
theorem lindFcntl_congr (env : Env) (fd cmd : ℤ) (m m' : ByteMemory) (log : List Word) :
    lindFcntl fd cmd (env, m) log = lindFcntl fd cmd (env, m') log := by
  have hbytes : pyBytes (.stray env.vararg) sizeofFlock (env, m) log =
      pyBytes (.stray env.vararg) sizeofFlock (env, m') log := by
    have hsize : (0 : ℤ) ≤ sizeofFlock := by decide
    simp only [pyBytes, bind_apply, ask_apply, Outcome.andThen_done, ite_run, if_pos hsize,
      loadOwn_congr env _ _ m m', pure_apply]
  rw [lindFcntl_apply, lindFcntl_apply, hbytes]

/-- What `lind_fcntl` sends, with whatever it finds for an argument. -/
theorem requests_fcntl (env : Env) (t : Tracee) (hflag : w.entering = false) :
    (emulated monitorFcntl env (w.atStop t)).state.requests =
      match lindFcntl (cInt t.regs.rdi) (cInt t.regs.rsi) (env, zeroMemory) [] with
      | .done request _ => request :: w.requests
      | .halt _ _ => w.requests := by
  rw [requests_emulated _ (show (w.atStop t).entering = false from hflag)]
  show (status (lindFcntl (cInt t.regs.rdi) (cInt t.regs.rsi)) env (w.atLeave t)).state.requests = _
  rw [lindFcntl_congr env _ _ zeroMemory (w.atLeave t).tracee.mem, status, bind_apply]
  cases hq : lindFcntl (cInt t.regs.rdi) (cInt t.regs.rsi) (env, (w.atLeave t).tracee.mem) [] with
  | done request log =>
    rw [fetch_done hq, Outcome.andThen_done, bind_apply, requests_andThen fun _ _ ↦ rfl,
      requests_lindCall]
    rfl
  | halt e log =>
    rw [fetch_halt hq, Outcome.andThen_halt]
    rfl

/-- What is found for `F_DUPFD`, and nothing for the commands that `lind_fcntl` does not know. -/
theorem lindFcntl_done (env : Env) (fd : ℤ) {cmd : ℤ} (hcmd : cmd ≠ F_SETLK) (m : ByteMemory)
    (log : List Word) :
    lindFcntl fd cmd (env, m) log = .done ⟨LIND_safe_fs_fcntl, .int fd :: .int cmd ::
      if cmd = F_DUPFD then [.int (cInt env.vararg)] else []⟩ log := by
  rw [lindFcntl_apply]
  split_ifs <;> rfl

/-- Without a pointer, `F_SETLK` has `None`. -/
theorem lindFcntl_null (env : Env) (fd : ℤ) (m : ByteMemory) (log : List Word) :
    lindFcntl fd F_SETLK (env.withVararg 0, m) log =
      .done ⟨LIND_safe_fs_fcntl, [.int fd, .int F_SETLK, .none]⟩ log := rfl

/-- **The third argument of `fcntl`** is never forwarded, and what is sent does not depend on it. -/
theorem fcntl_never_forwards {v : PyVal} (harg : FcntlArg t v) (hflag : w.entering = false) :
    ¬ FcntlForwards env w t v ∧ ∀ t' : Tracee, t'.regs.rdi = t.regs.rdi →
      t'.regs.rsi = t.regs.rsi → (emulated monitorFcntl env (w.atStop t')).state.requests =
        (emulated monitorFcntl env (w.atStop t)).state.requests := by
  constructor
  · intro h
    by_cases hset : cInt t.regs.rsi = F_SETLK
    · obtain ⟨request, hrequest, hv⟩ := h 0
      rw [requests_fcntl _ t hflag, hset, lindFcntl_null] at hrequest
      cases hrequest
      obtain rfl : v = .none := by simpa using hv
      cases harg
    · have hfound (vararg : Word) : v ∈ if cInt t.regs.rsi = F_DUPFD then
          [PyVal.int (cInt vararg)] else [] := by
        obtain ⟨request, hrequest, hv⟩ := h vararg
        rw [requests_fcntl _ t hflag, lindFcntl_done _ _ hset] at hrequest
        cases hrequest
        exact hv
      have h0 := hfound 0
      have h1 := hfound 1
      split_ifs at h0 h1
      · obtain rfl := List.mem_singleton.1 h0
        exact absurd (List.mem_singleton.1 h1) (by decide)
      · exact absurd h0 List.not_mem_nil
  · intro t' hrdi hrsi
    rw [requests_fcntl env t' hflag, requests_fcntl env t hflag, hrdi, hrsi]

end Fcntl

/-- A tracee that makes a descriptor non-blocking. -/
def nonblockTracee : Tracee := ⟨{ callRegs 72 with rdi := 3, rsi := 4, rdx := 2048 }, zeroMemory⟩

theorem fcntlArg_nonblock : FcntlArg nonblockTracee (.int 2048) :=
  .integer (t := nonblockTracee) (by decide)

theorem fcntl_never_forwards_nonblock :
    ¬ FcntlForwards Env.blank zeroWorld nonblockTracee (.int 2048) ∧ ∀ t' : Tracee,
      t'.regs.rdi = 3 → t'.regs.rsi = 4 →
        (emulated monitorFcntl Env.blank (zeroWorld.atStop t')).state.requests =
          (emulated monitorFcntl Env.blank (zeroWorld.atStop nonblockTracee)).state.requests :=
  fcntl_never_forwards fcntlArg_nonblock rfl

/-- `F_SETFL` with `O_NONBLOCK` is sent without the flag. -/
theorem not_fcntl_forwards : ¬ ∀ (env : Env) (w : World) (t : Tracee) (v : PyVal), FcntlArg t v →
    w.entering = false → FcntlForwards env w t v := by
  intro h
  obtain ⟨request, hrequest, hv⟩ := h Env.blank zeroWorld nonblockTracee _ fcntlArg_nonblock rfl 0
  rw [requests_fcntl _ nonblockTracee rfl, lindFcntl_done _ _ (by decide)] at hrequest
  cases hrequest
  exact absurd hv List.not_mem_nil

end ReferenceMonitor
