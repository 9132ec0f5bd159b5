import Mathlib.Data.List.Forall2
import ReferenceMonitor.Monitor.Exposure
import ReferenceMonitor.Platform.MultiPart

/-!
# How far the buffers of a handler are filled

What a handler copies back is in part what Lind answered, or what the handler read from the tracee,
and in part what its buffers held when they were allocated. `LindCall.copies` lists the ranges a
handler copies to with the number of bytes that are known in each buffer; it is a function of the
registers, the tracee's memory and the verdict on the answer. `known_of_reply` connects it with the
reply of the emulation.
-/

namespace ReferenceMonitor

open Halting

/-! ### Filled blocks -/

/-- `b'` is `b` after `n` bytes were stored in it. -/
def Block.Filled (b b' : Block) (n : ℤ) : Prop :=
  ∃ bytes : List Byte, b' = b.store (bytes.map .stored) ∧ (bytes.length : ℤ) = n ∧
    bytes.length ≤ b.cells.length

theorem filled_self (b : Block) : b.Filled b 0 := ⟨[], rfl, rfl, Nat.zero_le _⟩

theorem not_known_malloc (number size : ℕ) (o : ℤ) : ¬ (malloc number size).Known o := by
  rintro ⟨-, v, hv⟩
  obtain ⟨i, -, hi⟩ := List.mem_map.1 (List.mem_of_getElem? hv)
  cases hi

theorem known_memBlock_iff {number : ℕ} {m : ByteMemory} {addr : Word} {n : ℕ} {o : ℤ} :
    (memBlock number m addr n).Known o ↔ 0 ≤ o ∧ o < (8 * n : ℕ) := by
  have hlen := length_memBlock number m addr n
  constructor
  · rintro ⟨ho, v, hv⟩
    have := (List.getElem?_eq_some_iff.1 hv).1
    exact ⟨ho, by omega⟩
  · rintro ⟨ho, hlt⟩
    have hin : o.toNat < (memBlock number m addr n).cells.length := by omega
    obtain ⟨v, hv⟩ := stored_memBlock (List.getElem_mem hin)
    exact ⟨ho, v, (List.getElem?_eq_getElem hin).trans (congrArg some hv)⟩

/-- Inside what was stored, the stored cells decide. -/
theorem known_store_iff {b : Block} {cells : List Cell} {o : ℤ} (h : o < cells.length) :
    (b.store cells).Known o ↔ 0 ≤ o ∧ ∃ v, cells[o.toNat]? = some (.stored v) := by
  refine and_congr_right fun ho ↦ ?_
  rw [Block.store, List.getElem?_append_left (by omega)]

/-- A fresh block is known as far as it is filled. -/
theorem Block.Filled.known_iff {number size : ℕ} {b : Block} {n : ℤ}
    (h : (malloc number size).Filled b n) {o : ℤ} : b.Known o ↔ 0 ≤ o ∧ o < n := by
  obtain ⟨bytes, rfl, rfl, -⟩ := h
  rcases lt_or_ge o bytes.length with hlt | hge
  · rw [known_store_iff (by rwa [List.length_map])]
    refine and_congr_right fun ho ↦ iff_of_true ⟨bytes.getD o.toNat 0, ?_⟩ hlt
    rw [List.getElem?_map, List.getD_eq_getElem?_getD, List.getElem?_eq_getElem (by omega)]
    rfl
  · refine iff_of_false ?_ (by omega)
    rintro ⟨ho, v, hv⟩
    rw [Block.store, List.getElem?_append_right (by rw [List.length_map]; omega),
      List.getElem?_drop] at hv
    obtain ⟨i, -, hi⟩ := List.mem_map.1 (List.mem_of_getElem? hv)
    cases hi

theorem Block.Filled.length_eq {b b' : Block} {n : ℤ} (h : b.Filled b' n) :
    b'.cells.length = b.cells.length := by
  obtain ⟨bytes, rfl, -, hle⟩ := h
  exact length_store (by rwa [List.length_map])

/-! ### Answers -/

/-- How much of a buffer the answer fills, for a wrapper that passes `limit` on. -/
def Verdict.filled (limit : ℤ) : Verdict → ℤ
  | success _ data => copyLen limit (wrapInt data.length)
  | _ => 0

/-- How much of its buffer the answer fills with part `k`. -/
def Verdict.filledPart (env : Env) (k : ℕ) (limit : ℤ) : Verdict → ℤ
  | success _ data =>
    if k < (wrapInt data.length).toNat then copyLen limit (lengthAt (payloadAt env data) k) else 0
  | _ => 0

theorem filled_received {env : Env} {b b' : Block} {limit : ℤ} {v : Verdict}
    (h : received env b limit v = some b') : b.Filled b' (v.filled limit) := by
  cases v with
  | failed | error =>
    cases h
    exact filled_self b
  | success code data =>
    rw [received] at h
    split_ifs at h with hfits
    cases h
    refine ⟨(List.range (copyLen limit (wrapInt data.length)).toNat).map
      fun i : ℕ ↦ payloadAt env data i, ?_, ?_, ?_⟩
    · rw [payloadCells, List.map_map]
      rfl
    · rw [List.length_map, List.length_range]
      exact Int.toNat_of_nonneg hfits.1
    · rw [List.length_map, List.length_range]
      have := hfits.2
      omega

theorem filled_copyData {b : Block} {src : ℤ → Byte} {maxlen srclen : ℤ} {p : Env × ByteMemory}
    {log log' : List Word} {dst : Ptr}
    (h : copyData (.block b) src maxlen srclen p log = .done dst log') :
    ∃ b', dst = .block b' ∧ b.Filled b' (copyLen maxlen srclen) := by
  rw [copyData] at h
  by_cases hzero : copyLen maxlen srclen = 0
  · rw [if_pos hzero] at h
    cases h
    exact ⟨b, rfl, by rw [hzero]; exact filled_self b⟩
  · rw [if_neg hzero] at h
    split_ifs at h with hroom
    · cases h
      refine ⟨_, rfl, (List.range (copyLen maxlen srclen).toNat).map fun i : ℕ ↦ src i, ?_, ?_, ?_⟩
      · rw [List.map_map]
        rfl
      · rw [List.length_map, List.length_range]
        omega
      · rw [List.length_map, List.length_range]
        omega
    · cases h

/-- The loop fills one buffer a round. -/
theorem filled_copyMultiLoop {src : ℤ → Byte} {rounds i : ℕ} {offset : ℤ} {varg : List Dest}
    {p : Env × ByteMemory} {log log' : List Word} {dsts : List Ptr}
    (h : copyMultiLoop src rounds i offset varg p log = .done dsts log') {k : ℕ} {b : Block}
    {limit : ℤ} (hk : varg[k]? = some ⟨.block b, limit⟩) :
    ∃ b', dsts[k]? = some (.block b') ∧
      b.Filled b' (if k < rounds then copyLen limit (lengthAt src (i + k)) else 0) := by
  induction rounds generalizing i offset varg log dsts k with
  | zero =>
    cases h
    exact ⟨b, by rw [List.getElem?_map, hk]; rfl, filled_self b⟩
  | succ rounds ih =>
    cases varg with
    | nil => cases h
    | cons d varg =>
      obtain ⟨dst, t, hdst, h⟩ := Outcome.andThen_eq_done_iff.1 h
      dsimp only at h
      rw [ite_run] at h
      split_ifs at h
      · cases h
      · obtain ⟨rest, u, hrest, h⟩ := Outcome.andThen_eq_done_iff.1 h
        cases h
        cases k with
        | zero =>
          cases hk
          obtain ⟨b', rfl, hb⟩ := filled_copyData hdst
          exact ⟨b', rfl, hb⟩
        | succ k =>
          obtain ⟨b', hget, hb⟩ := ih hrest hk
          refine ⟨b', hget, ?_⟩
          rw [show i + (k + 1) = i + 1 + k by omega]
          simpa only [Nat.add_lt_add_iff_right] using hb

/-! ### The copies of the handlers -/

/-- The ranges a handler copies to, each with the number of bytes known in its buffer. Where the
call fails, `monitor_select` copies back what it read; otherwise its buffers are parts of the
answer, which is filled from its start. -/
def LindCall.copies (env : Env) (m : ByteMemory) (r : SyscallArgs) (v : Verdict) :
    LindCall → List (Range ℤ)
  | epoll_ctl => [⟨r.arg4, BitVec.ofNat 64 sizeofEpollEvent, 0⟩]
  | select =>
    let fdSet := BitVec.ofNat 64 sizeofFdSet
    let timeval := BitVec.ofNat 64 sizeofTimeval
    let part (o : ℤ) (n : ℕ) : ℤ := if v.status < 0 then n else v.filled 400 - o
    [⟨r.arg2, fdSet, part 16 sizeofFdSet⟩, ⟨r.arg3, fdSet, part 144 sizeofFdSet⟩,
      ⟨r.arg4, fdSet, part 272 sizeofFdSet⟩, ⟨r.arg5, timeval, part 0 sizeofTimeval⟩]
  | recvfrom =>
    [⟨r.arg2, r.arg3, v.filledPart env 1 (cInt r.arg3)⟩,
      ⟨r.arg5, r.arg6, v.filledPart env 2 sizeofSockaddr⟩]
  | recvmsg => (recvmsgBacks env (msgView env m r)).map fun b ↦ ⟨b.dst, b.count, 0⟩
  | c =>
    match c.output env m r with
    | some o => [⟨o.dst, o.count, v.filled o.limit⟩]
    | none => []

/-- The copies of a result. -/
def backsOf (res : Result) : List CopyBack := (res.map Prod.snd).getD []

/-- A range and what is known of its buffer. -/
def Range.Describes (f : Range ℤ) (b : Range Block) : Prop :=
  f.dst = b.dst ∧ f.count = b.count ∧
    ∀ o < (b.count.toNat : ℤ), b.src.Known o ↔ 0 ≤ o ∧ o < f.src

section Reply

variable {env : Env} {m : ByteMemory} {r : SyscallArgs} {c : LindCall} {v : Verdict}

theorem describes_of_filled {dst count : Word} {number size : ℕ} {b : Block} {n : ℤ}
    (h : (malloc number size).Filled b n) :
    Range.Describes ⟨dst, count, n⟩ (CopyBack.range ⟨dst, b, count⟩) :=
  ⟨rfl, rfl, fun _ _ ↦ h.known_iff⟩

theorem backsOf_enterResult {otherwise : Result} (h : backsOf otherwise = []) :
    backsOf (enterResult otherwise v) = [] := by
  rw [enterResult]
  split
  · rfl
  · exact h

/-- A part of the answer to `select`, stored over what was read. -/
theorem describes_part {dst : Word} {number : ℕ} {result sets : Block} {n size : ℕ} {f : ℤ}
    (hresult : (malloc number 400).Filled result f) (hsize : n + size ≤ 400)
    (hcount : (BitVec.ofNat 64 size).toNat = size) :
    Range.Describes ⟨dst, BitVec.ofNat 64 size, f - n⟩
      (CopyBack.range ⟨dst, sets.store ((result.cells.drop n).take size),
        BitVec.ofNat 64 size⟩) := by
  refine ⟨rfl, rfl, fun o ho ↦ ?_⟩
  dsimp only [CopyBack.range] at ho ⊢
  have hlen := hresult.length_eq
  rw [length_malloc] at hlen
  rw [hcount] at ho
  have hpart : ((result.cells.drop n).take size).length = size := by
    rw [List.length_take, List.length_drop]
    omega
  refine (known_store_iff (by rwa [hpart])).trans (and_congr_right fun hnonneg ↦ ?_)
  have hknown := hresult.known_iff (o := n + o)
  rw [List.getElem?_take_of_lt (by omega), List.getElem?_drop]
  rw [Block.Known, show (n + o : ℤ).toNat = n + o.toNat by omega] at hknown
  constructor
  · intro h
    have := hknown.1 ⟨by omega, h⟩
    omega
  · intro h
    exact (hknown.2 ⟨by omega, by omega⟩).2

/-- What was read of the tracee is known in full. -/
theorem describes_memBlock {dst : Word} {number n size : ℕ} {addr : Word} (hsize : size ≤ 8 * n)
    (hcount : (BitVec.ofNat 64 size).toNat = size) :
    Range.Describes ⟨dst, BitVec.ofNat 64 size, size⟩
      (CopyBack.range ⟨dst, memBlock number m addr n, BitVec.ofNat 64 size⟩) := by
  refine ⟨rfl, rfl, fun o ho ↦ known_memBlock_iff.trans ?_⟩
  dsimp only [CopyBack.range] at ho ⊢
  omega

/-- The buffers of `monitor_recvmsg` are fresh, and none is the vector. -/
theorem mem_recvmsgBacks {view : MsgView} {b : CopyBack} (h : b ∈ recvmsgBacks env view) :
    ∃ number size, b.block = malloc number size ∧ number ≠ 1 := by
  rcases List.mem_cons.1 h with rfl | h
  · exact ⟨2, _, rfl, by decide⟩
  · rcases List.mem_cons.1 h with rfl | h
    · exact ⟨3, _, rfl, by decide⟩
    · obtain ⟨i, -, rfl⟩ := List.mem_map.1 h
      exact ⟨6 + i, _, rfl, by omega⟩

/-- Part `k` of the answer to `recvfrom`. -/
theorem filled_recvfromReceived {dsts : List Ptr}
    (h : (recvfromReceived r v (env, m) []).toOption = some dsts) {k : ℕ} {b : Block} {limit : ℤ}
    (hk : (recvfromDests r)[k]? = some ⟨.block b, limit⟩) :
    ∃ b', dsts[k]? = some (.block b') ∧ b.Filled b' (v.filledPart env k limit) := by
  cases hdone : recvfromReceived r v (env, m) [] with
  | halt e log =>
    rw [hdone] at h
    cases h
  | done a log =>
    rw [hdone] at h
    cases h
    cases v with
    | failed | error =>
      cases hdone
      exact ⟨b, by rw [List.getElem?_map, hk]; rfl, filled_self b⟩
    | success code data =>
      have hloop : copyMultiLoop (payloadAt env data) (wrapInt data.length).toNat 0
          (wrapInt (4 * wrapInt data.length)) (recvfromDests r) (env, m) [] = .done dsts log :=
        hdone
      obtain ⟨b', hget, hb⟩ := filled_copyMultiLoop hloop hk
      refine ⟨b', hget, ?_⟩
      rwa [Nat.zero_add] at hb

/-- The buffers of a reply are known as far as `LindCall.copies` says. -/
theorem describes_of_reply {res : Result} (h : c.reply env m r v = some res) :
    List.Forall₂ (fun b f ↦ Range.Describes f b) ((backsOf res).map CopyBack.range)
      (c.copies env m r v) := by
  have hnone (hres : backsOf res = []) : List.Forall₂ (fun b f ↦ Range.Describes f b)
      ((backsOf res).map CopyBack.range) [] := by
    rw [hres]
    exact .nil
  cases c with
  | read | getdents | fstat | stat | statfs | fstatfs | poll | epoll_wait | getsockname
  | getsockopt =>
    obtain ⟨b, hb, rfl⟩ := Option.map_eq_some_iff.1 h
    exact .cons (describes_of_filled (filled_received hb)) .nil
  | epoll_ctl =>
    cases h
    exact .cons (describes_of_filled (filled_self _)) .nil
  | recvmsg =>
    cases h
    refine List.forall₂_map_left_iff.2 (List.forall₂_map_right_iff.2 (List.forall₂_same.2
      fun b hb ↦ ⟨rfl, rfl, fun o _ ↦ iff_of_false ?_ (by dsimp only; omega)⟩))
    obtain ⟨number, size, hblock, -⟩ := mem_recvmsgBacks hb
    rw [CopyBack.range, hblock]
    exact not_known_malloc _ _ _
  | recvfrom =>
    obtain ⟨dsts, hdsts, rfl⟩ := Option.map_eq_some_iff.1 h
    obtain ⟨var, hvar, hfilled⟩ := filled_recvfromReceived hdsts (k := 1) rfl
    obtain ⟨buff, hbuff, hfilled'⟩ := filled_recvfromReceived hdsts (k := 2) rfl
    have hbacks : backsOf (some (ofInt v.status, recvfromBacks r dsts)) =
        [⟨r.arg2, var, r.arg3⟩, ⟨r.arg5, buff, r.arg6⟩] := by
      rw [backsOf, Option.map_some, Option.getD_some, recvfromBacks]
      simp only [List.getD_eq_getElem?_getD, hvar, hbuff, Option.getD_some, Ptr.blockFrom]
    rw [hbacks]
    exact .cons (describes_of_filled hfilled) (.cons (describes_of_filled hfilled') .nil)
  | select =>
    obtain ⟨result, hresult, rfl⟩ := Option.map_eq_some_iff.1 h
    have hfilled := filled_received hresult
    have hset : (BitVec.ofNat 64 sizeofFdSet).toNat = sizeofFdSet := by decide
    have htime : (BitVec.ofNat 64 sizeofTimeval).toNat = sizeofTimeval := by decide
    -- after a failure the four blocks are those read on the way in, else parts of the answer
    by_cases hv : v.status < 0
    · simp only [LindCall.copies, if_pos hv]
      exact .cons (describes_memBlock (by decide) hset) (.cons (describes_memBlock (by decide) hset)
        (.cons (describes_memBlock (by decide) hset)
          (.cons (describes_memBlock (by decide) htime) .nil)))
    · simp only [LindCall.copies, if_neg hv]
      exact .cons (describes_part hfilled (by decide) hset)
        (.cons (describes_part hfilled (by decide) hset)
          (.cons (describes_part hfilled (by decide) hset)
            (.cons (describes_part hfilled (by decide) htime) .nil)))
  | socketpair =>
    obtain ⟨b, -, rfl⟩ := Option.map_eq_some_iff.1 h
    exact hnone (backsOf_enterResult rfl)
  | lseek | pread64 =>
    obtain ⟨b, -, rfl⟩ := Option.map_eq_some_iff.1 h
    exact hnone rfl
  | openat | access | dup | dup2 | dup3 | epoll_create1 | epoll_create | socket | accept
  | «open» =>
    cases h
    exact hnone (backsOf_enterResult rfl)
  | _ =>
    cases h
    exact hnone rfl

end Reply

/-! ### Copies that change nothing -/

/-- The words the copies of a call go to. -/
def LindCall.copiedWords (env : Env) (m : ByteMemory) (r : SyscallArgs) (v : Verdict)
    (c : LindCall) : List Word :=
  (c.copies env m r v).flatMap fun f ↦ copyWords f.dst f.count

section Copies

variable {env env' : Env} {m : ByteMemory} {r : SyscallArgs} {c : LindCall} {v : Verdict}
  {res : Result}

theorem addr_slots_of_describes {bs : List (Range Block)} {fs : List (Range ℤ)}
    (h : List.Forall₂ (fun b f ↦ Range.Describes f b) bs fs) :
    (slots m bs).map Slot.addr = fs.flatMap fun f ↦ copyWords f.dst f.count := by
  rw [addr_slots]
  induction h with
  | nil => rfl
  | cons hb _ ih => rw [List.flatMap_cons, List.flatMap_cons, hb.1, hb.2.1, ih]

/-- Nothing changes where nothing can be poked. -/
theorem copyMem_eq_self (hres : c.reply env m r v = some res)
    (h : ∀ a ∈ c.copiedWords env m r v, ¬ m.Pokeable a) (env' : Env) :
    copyMem env' m (backsOf res) = m := by
  rw [LindCall.copiedWords, ← addr_slots_of_describes (m := m) (describes_of_reply hres)] at h
  rw [copyMem_eq_pokeAll]
  refine ByteMemory.pokeAll_eq_self fun w hw ↦ ?_
  obtain ⟨q, hq, rfl⟩ := List.mem_map.1 hw
  exact h q.addr (List.mem_map.2 ⟨q, hq, rfl⟩)

/-- `set_mem` writes back what `get_mem` has read. -/
theorem writeMem_memBlock (env : Env) (number : ℕ) (m : ByteMemory) (addr : Word) {count : Word}
    {n : ℕ} (hcount : count.toNat % 8 = 0) (hn : (cInt (count / 8)).toNat ≤ n) :
    writeMem m addr ((memBlock number m addr n).wordAt env) count = m := by
  rw [writeMem_eq_pokeAll, copyPokes, if_pos hcount, List.append_nil]
  refine ByteMemory.pokeAll_peek fun w hw hp ↦ ?_
  obtain ⟨i, hi, rfl⟩ := List.mem_map.1 hw
  have hlt := List.mem_range.1 hi
  have hword := wordAt_memBlock env number m addr (show i < n by omega)
  rw [show ((8 * i : ℕ) : ℤ) = 8 * (i : ℤ) by omega] at hword
  dsimp only at hp ⊢
  rw [hword, peekData, ByteMemory.peek, if_pos hp.1, Option.getD_some]

theorem copyMem_selectBacks (env : Env) (m : ByteMemory) (r : SyscallArgs) :
    copyMem env m (selectBacks r (selectSets m r)) = m := by
  simp only [copyMem, selectBacks, selectSets, List.foldl_cons, List.foldl_nil]
  rw [writeMem_memBlock env 0 m r.arg2 (by decide) (by decide),
    writeMem_memBlock env 1 m r.arg3 (by decide) (by decide),
    writeMem_memBlock env 2 m r.arg4 (by decide) (by decide),
    writeMem_memBlock env 3 m r.arg5 (by decide) (by decide)]

/-- The buffers that are copied back by a call with a vector are not the vector. -/
theorem number_backsOf (hc : HasVector (some c)) (hres : c.reply env m r v = some res) :
    ∀ b ∈ backsOf res, b.block.number ≠ 1 := by
  rcases hc with h | h
  · obtain rfl := Option.some.inj h
    cases hres
    exact fun b hb ↦ absurd hb List.not_mem_nil
  · obtain rfl := Option.some.inj h
    cases hres
    intro b hb
    obtain ⟨number, size, hblock, hnumber⟩ := mem_recvmsgBacks hb
    rwa [hblock]

/-- The copies of a reply do not depend on fresh memory exactly where they show what is known. -/
theorem copyMem_reply_iff (hres : c.reply env m r v = some res) :
    (∀ env', SameButFresh (some c) env env' →
        copyMem env' m (backsOf res) = copyMem env m (backsOf res)) ↔
      ShownOnly m (c.copies env m r v) fun n o ↦ 0 ≤ o ∧ o < n := by
  rw [copyMem_blind_iff fun hc ↦ number_backsOf hc hres]
  exact shownOnly_iff_of_forall₂ (describes_of_reply hres)

/-- Where nothing is known and nothing unknown is shown, no word can be poked. -/
theorem not_pokeable_of_shownOnly {fs : List (Range ℤ)}
    (h : ShownOnly m fs fun n o ↦ 0 ≤ o ∧ o < n) (hfs : ∀ f ∈ fs, f.src = 0) :
    ∀ a ∈ fs.flatMap fun f ↦ copyWords f.dst f.count, ¬ m.Pokeable a := by
  rw [← addr_slots (m := m)]
  intro a ha hp
  obtain ⟨i, b, hget, hpb, hlast⟩ := ByteMemory.exists_last ⟨a, ha, hp⟩
  obtain ⟨q, hq, rfl⟩ := Option.map_eq_some_iff.1 ((List.getElem?_map ..).symm.trans hget)
  obtain ⟨f, hf, hsrc, hkeep, -⟩ := mem_slots (List.mem_of_getElem? hq)
  have hshown := h i q 0 hq hkeep
    ⟨hget, hpb, inWord_add _ (by decide), fun i' a' hi hget' hpa _ ↦ hlast i' a' hi hget' hpa⟩
  rw [hsrc, hfs f hf] at hshown
  omega

end Copies

end ReferenceMonitor
