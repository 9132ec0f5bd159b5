import Mathlib.Data.List.Forall2
import ReferenceMonitor.Monitor.Outcomes

/-!
# Paths: `get_path` and the calls that send one

`get_path` reads a word for every four bytes of the string and grows its buffer by doubling. Index
and size are multiples of four, so that a store of four bytes which begins inside the buffer ends
there too (`BufferInv`). What it returns is the tracee's string, and this is what the ten calls that
take a path send to Lind.
-/

namespace ReferenceMonitor

open Halting

/-! ### Strings of the tracee -/

/-- The C string at an address of the tracee, in words that are mapped. -/
structure PathAt (m : ByteMemory) (addr : Word) (path : List Byte) : Prop where
  short : path.length < 2 ^ 31 - 4
  mapped : ∀ k ≤ path.length / 4, m.Mapped (addr + BitVec.ofNat 64 (4 * k))
  bytes : ∀ j < path.length, m.byte (addr + BitVec.ofNat 64 j) = path[j]?
  noZero : 0 ∉ path
  ends : m.byte (addr + BitVec.ofNat 64 path.length) = some 0

/-- What a round of `get_path` reads. -/
def quarter (m : ByteMemory) (addr : Word) (i : ℕ) : List Byte :=
  (List.range 4).map (byteOf (peekData m (addr + BitVec.ofNat 64 i)))

section PathAt

variable {m : ByteMemory} {addr : Word} {path : List Byte}

theorem length_quarter (i : ℕ) : (quarter m addr i).length = 4 := by
  rw [quarter, List.length_map, List.length_range]

theorem PathAt.getElem?_quarter (h : PathAt m addr path) {i j : ℕ} (hi : i % 4 = 0)
    (hle : i ≤ path.length) (hj : j < 4) :
    (quarter m addr i)[j]? = m.byte (addr + BitVec.ofNat 64 (i + j)) := by
  have hmapped := h.mapped (i / 4) (by omega)
  rw [show 4 * (i / 4) = i by omega] at hmapped
  rw [quarter, List.getElem?_map, List.getElem?_range hj, Option.map_some,
    byteOf_peekData hmapped (by omega), BitVec.add_assoc, ← BitVec.ofNat_add]

/-- Before the last round, four bytes of the string. -/
theorem PathAt.quarter_eq (h : PathAt m addr path) {i : ℕ} (hi : i % 4 = 0)
    (hle : i + 4 ≤ path.length) : quarter m addr i = (path.drop i).take 4 := by
  refine List.ext_getElem? fun j ↦ ?_
  obtain hj | hj := Nat.lt_or_ge j 4
  · rw [h.getElem?_quarter hi (by omega) hj, h.bytes _ (by omega), List.getElem?_take_of_lt hj,
      List.getElem?_drop]
  · rw [List.getElem?_eq_none (by rwa [length_quarter]),
      List.getElem?_eq_none (by rw [List.length_take]; omega)]

/-- In the last round, the rest of it, and a zero. -/
theorem PathAt.quarter_last (h : PathAt m addr path) {i : ℕ} (hi : i % 4 = 0)
    (hle : i ≤ path.length) (hlast : path.length < i + 4) :
    ∃ rest, quarter m addr i = path.drop i ++ 0 :: rest := by
  have hlen : (quarter m addr i).length = 4 := length_quarter i
  have hrest : (quarter m addr i).take (path.length - i) = path.drop i := by
    refine List.ext_getElem? fun j ↦ ?_
    obtain hj | hj := Nat.lt_or_ge j (path.length - i)
    · rw [List.getElem?_take_of_lt hj, h.getElem?_quarter hi hle (by omega), h.bytes _ (by omega),
        List.getElem?_drop]
    · rw [List.getElem?_eq_none (by rw [List.length_take]; omega),
        List.getElem?_eq_none (by rw [List.length_drop]; omega)]
  have hzero : (quarter m addr i)[path.length - i]? = some 0 := by
    rw [h.getElem?_quarter hi hle (by omega), Nat.add_sub_cancel' hle, h.ends]
  obtain ⟨hlt, hget⟩ := List.getElem?_eq_some_iff.1 hzero
  refine ⟨(quarter m addr i).drop (path.length - i + 1), ?_⟩
  rw [← hrest, ← hget, ← List.drop_eq_getElem_cons hlt, List.take_append_drop]

end PathAt

/-! ### The loop -/

/-- Index and size of the buffer of `get_path`, before a round. -/
structure BufferInv (i len : ℕ) : Prop where
  aligned : i % 4 = 0
  doubled : ∃ k, len = pathMax * 2 ^ k
  le : i ≤ len

theorem bufferInv_zero : BufferInv 0 pathMax :=
  ⟨rfl, ⟨0, (Nat.mul_one _).symm⟩, Nat.zero_le _⟩

/-- The size of the buffer in a round. -/
def grown (i len : ℕ) : ℕ := if i ≥ len then len * 2 else len

/-- A round stores inside the buffer, and keeps the invariant. -/
theorem BufferInv.step {i len : ℕ} (h : BufferInv i len) :
    i + 4 ≤ grown i len ∧ BufferInv (i + 4) (grown i len) := by
  obtain ⟨hi, ⟨k, rfl⟩, hle⟩ := h
  have hpos : 0 < 2 ^ k := Nat.two_pow_pos k
  have hmul : pathMax * 2 ^ k = 4 * (1024 * 2 ^ k) := by
    rw [pathMax]
    omega
  have hroom : i + 4 ≤ grown i (pathMax * 2 ^ k) := by
    rw [grown]
    split <;> omega
  refine ⟨hroom, by omega, ?_, hroom⟩
  rw [grown]
  split
  · exact ⟨k + 1, by rw [pow_succ, Nat.mul_assoc]⟩
  · exact ⟨k, rfl⟩

/-- The rounds of `get_path`: the index of each store, and the size of the buffer then. -/
def pathRounds (m : ByteMemory) (addr : Word) : (fuel i len : ℕ) → List (ℕ × ℕ)
  | 0, _, _ => []
  | fuel + 1, i, len =>
    (i, grown i len) ::
      if (quarter m addr i).contains 0 then [] else pathRounds m addr fuel (i + 4) (grown i len)

theorem pathLoop_succ (m : ByteMemory) (addr : Word) (fuel i len : ℕ) (buffer : List Byte) :
    pathLoop m addr (fuel + 1) i len buffer =
      if i + 4 > grown i len then .error .corrupt
      else if 0 ∈ quarter m addr i then .ok (buffer ++ quarter m addr i)
      else pathLoop m addr fuel (i + 4) (grown i len) (buffer ++ quarter m addr i) := rfl

section Loop

variable {m : ByteMemory} {addr : Word} {path : List Byte}

/-- The loop reads the string to its end, with every store inside the buffer. -/
theorem PathAt.pathLoop (h : PathAt m addr path) (fuel : ℕ) {i len : ℕ} (hinv : BufferInv i len)
    (hi : i ≤ path.length) (hfuel : path.length < 4 * fuel + i) (buffer : List Byte) :
    (∃ rest, pathLoop m addr fuel i len buffer = .ok (buffer ++ (path.drop i ++ 0 :: rest))) ∧
      (pathRounds m addr fuel i len).length = (path.length - i) / 4 + 1 ∧
        ∀ round ∈ pathRounds m addr fuel i len,
          round.1 + 4 ≤ round.2 ∧ ∃ k, round.2 = pathMax * 2 ^ k := by
  induction fuel generalizing i len buffer with
  | zero => omega
  | succ fuel ih =>
    obtain ⟨hroom, hinv'⟩ := hinv.step
    rw [pathLoop_succ, if_neg (not_lt.2 hroom), pathRounds]
    obtain hlast | hmore := Nat.lt_or_ge path.length (i + 4)
    · obtain ⟨rest, hrest⟩ := h.quarter_last hinv.aligned hi hlast
      have hzero : 0 ∈ quarter m addr i := by simp [hrest]
      rw [if_pos hzero, if_pos (List.contains_iff_mem.2 hzero)]
      refine ⟨⟨rest, by rw [hrest]⟩, ?_, ?_⟩
      · rw [List.length_singleton]
        omega
      · rintro round hround
        rw [List.mem_singleton.1 hround]
        exact ⟨hroom, hinv'.doubled⟩
    · -- four more bytes of the string, none of them zero
      have hquarter := h.quarter_eq hinv.aligned hmore
      have hzero : 0 ∉ quarter m addr i := fun hmem ↦
        h.noZero (List.mem_of_mem_drop (List.mem_of_mem_take (hquarter ▸ hmem)))
      rw [if_neg hzero, if_neg (mt List.contains_iff_mem.1 hzero)]
      obtain ⟨⟨rest, hloop⟩, hlen, hrounds⟩ := ih hinv' hmore (by omega)
        (buffer ++ quarter m addr i)
      refine ⟨⟨rest, ?_⟩, ?_, ?_⟩
      · have hdrop : (path.drop i).take 4 ++ path.drop (i + 4) = path.drop i := by
          rw [← List.drop_drop, List.take_append_drop]
        rw [hloop, hquarter, List.append_assoc, ← List.append_assoc (List.take 4 _), hdrop]
      · rw [List.length_cons, hlen]
        omega
      · exact List.forall_mem_cons.2 ⟨⟨hroom, hinv'.doubled⟩, hrounds⟩

theorem PathAt.getPath (h : PathAt m addr path) (env : Env) (log : List Word) :
    getPath addr (env, m) log = .done path log := by
  have hshort := h.short
  obtain ⟨⟨rest, hloop⟩, -⟩ := h.pathLoop (2 ^ 29) bufferInv_zero (Nat.zero_le _)
    (by omega) []
  rw [ReferenceMonitor.getPath, bind_apply, ask_apply, Outcome.andThen_done]
  dsimp only
  rw [hloop]
  have htake : (path ++ 0 :: rest).takeWhile (· ≠ 0) = path := by
    rw [List.takeWhile_append_of_pos]
    · simp
    · intro b hb
      simpa using ne_of_mem_of_not_mem hb h.noZero
  show Outcome.done ((path ++ 0 :: rest).takeWhile (· ≠ 0)) log = .done path log
  rw [htake]

end Loop

/-! ### The calls -/

/-- The pointers to paths among the arguments of a call that sends them. -/
def LindCall.pathArgs (r : SyscallArgs) : LindCall → List Word
  | link => [r.arg1, r.arg2]
  | openat => [r.arg2]
  | unlink | mkdir | rmdir | chdir | stat | statfs | .open | access => [r.arg1]
  | _ => []

/-- The strings of a request. -/
def Request.strings (q : Request) : List (List Byte) :=
  q.args.filterMap fun
    | .str bytes => some bytes
    | _ => none

section Calls

variable {env : Env} {w : World}

theorem fetch_map {α β : Type} {x : Fetch α} {a : α} {w' : World} (h : fetch x env w = .done a w')
    (f : α → β) : fetch (do return f (← x)) env w = .done (f a) w' := by
  rw [fetch, focus] at h ⊢
  rw [bind_apply]
  cases hx : x (env, w.tracee.mem) [] with
  | done a' log =>
    rw [hx] at h
    cases h
    rfl
  | halt e log =>
    rw [hx] at h
    cases h

/-- The path of a request. -/
theorem PathAt.fetch {addr : Word} {path : List Byte} (h : PathAt w.tracee.mem addr path) :
    fetch (ReferenceMonitor.getPath addr) env w = .done path w :=
  fetch_done (h.getPath env [])

theorem requests_enterDescriptor (r : SyscallArgs) (otherwise : Option (Word × List CopyBack))
    (fd : ℤ) : (enterDescriptor r otherwise fd env w).state.requests = w.requests := by
  rw [enterDescriptor_apply]
  split <;> rfl

theorem requests_finish (res : Option (Word × List CopyBack)) :
    (finish res env w).state.requests = w.requests := by
  cases res with
  | none => rfl
  | some p =>
    rw [finish_some_apply]
    rfl

/-- A handler sends what its emulation sends. -/
theorem requests_emulated (e : Emulation) (h : w.entering = false) :
    (emulated e env w).state.requests = (e w.regs env
      { w with trace := .branch false w.regs.syscall :: w.trace }).state.requests := by
  rw [emulated, phased_of_leaving _ _ _ h, requests_andThen fun _ _ ↦ rfl]
  exact requests_andThen fun res t ↦ requests_finish res

variable {request : Request}

theorem requests_status {q : Fetch Request} (hq : fetch q env w = .done request w) :
    (status q env w).state.requests = request :: w.requests := by
  rw [status, bind_apply, hq, Outcome.andThen_done, bind_apply, requests_andThen fun _ _ ↦ rfl,
    requests_lindCall]

theorem requests_descriptor {q : SyscallArgs → Fetch Request} {r : SyscallArgs}
    (hq : fetch (q r) env w = .done request w) :
    (descriptor q r env w).state.requests = request :: w.requests := by
  rw [descriptor, bind_apply, hq, Outcome.andThen_done, bind_apply,
    requests_andThen fun _ _ ↦ requests_enterDescriptor r _ _, requests_lindCall]

theorem requests_fill (o : Output) {q : Block → Fetch Request}
    (hq : fetch (q (malloc 0 o.size)) env w = .done request w) :
    (fill o q env w).state.requests = request :: w.requests := by
  have hsize := fetch_map hq fun request ↦ (request, o.limit)
  rw [fill, fillWith, bind_apply, hsize, Outcome.andThen_done]
  exact (requests_andThen fun _ _ ↦ rfl).trans (requests_lindCallInto request _ o.limit)

theorem exists_path {addr : Word} {paths : List (List Byte)}
    (h : List.Forall₂ (PathAt w.tracee.mem) [addr] paths) :
    ∃ path, paths = [path] ∧ PathAt w.tracee.mem addr path := by
  obtain ⟨path, rest, hpath, hrest, rfl⟩ := List.forall₂_cons_left_iff.1 h
  rw [List.forall₂_nil_left_iff.1 hrest]
  exact ⟨path, rfl, hpath⟩

/-- What a call that takes paths sends. -/
theorem requests_of_pathAt (c : LindCall) (r : SyscallArgs) {paths : List (List Byte)}
    (hargs : c.pathArgs r ≠ []) (h : List.Forall₂ (PathAt w.tracee.mem) (c.pathArgs r) paths) :
    ∃ request, (c.emulation r env w).state.requests = request :: w.requests ∧
      request.strings = paths := by
  cases c with
  | link =>
    obtain ⟨src, rest, hsrc, hrest, rfl⟩ := List.forall₂_cons_left_iff.1 h
    obtain ⟨dst, rfl, hdst⟩ := exists_path hrest
    have hrun : (do
        let path ← getPath r.arg1
        return lindLink path (← getPath r.arg2) : Fetch Request) (env, w.tracee.mem) [] =
          .done (lindLink src dst) [] := by
      rw [bind_apply, hsrc.getPath env [], Outcome.andThen_done, bind_apply, hdst.getPath env []]
      rfl
    exact ⟨_, requests_status (fetch_done hrun), rfl⟩
  | unlink =>
    obtain ⟨path, rfl, hpath⟩ := exists_path h
    exact ⟨_, requests_status (fetch_map hpath.fetch lindUnlink), rfl⟩
  | rmdir =>
    obtain ⟨path, rfl, hpath⟩ := exists_path h
    exact ⟨_, requests_status (fetch_map hpath.fetch lindRmdir), rfl⟩
  | chdir =>
    obtain ⟨path, rfl, hpath⟩ := exists_path h
    exact ⟨_, requests_status (fetch_map hpath.fetch lindChdir), rfl⟩
  | mkdir =>
    obtain ⟨path, rfl, hpath⟩ := exists_path h
    exact ⟨_, requests_status (fetch_map hpath.fetch fun path ↦ lindMkdir path (cInt r.arg2)), rfl⟩
  | stat =>
    obtain ⟨path, rfl, hpath⟩ := exists_path h
    exact ⟨_, requests_fill (structOutput sizeofStat r.arg2)
      (q := fun _ ↦ return lindStat (← getPath r.arg1)) (fetch_map hpath.fetch lindStat), rfl⟩
  | statfs =>
    obtain ⟨path, rfl, hpath⟩ := exists_path h
    exact ⟨_, requests_fill (structOutput sizeofStatfs r.arg2)
      (q := fun _ ↦ return lindStatfs (← getPath r.arg1)) (fetch_map hpath.fetch lindStatfs), rfl⟩
  | access =>
    obtain ⟨path, rfl, hpath⟩ := exists_path h
    exact ⟨_, requests_descriptor (q := fun r ↦ return lindAccess (← getPath r.arg1) (cInt r.arg2))
      (fetch_map hpath.fetch fun path ↦ lindAccess path (cInt r.arg2)), rfl⟩
  | openat =>
    obtain ⟨path, rfl, hpath⟩ := exists_path h
    exact ⟨_, requests_descriptor (q := fun r ↦
      return lindOpenat (cInt r.arg1) (← getPath r.arg2) (cInt r.arg3) (cInt r.arg4))
      (fetch_map hpath.fetch fun path ↦
        lindOpenat (cInt r.arg1) path (cInt r.arg3) (cInt r.arg4)), rfl⟩
  | «open» =>
    obtain ⟨path, rfl, hpath⟩ := exists_path h
    refine ⟨lindOpen path (cInt r.arg2) (cInt r.arg3), ?_, rfl⟩
    rw [LindCall.emulation, monitorOpen, bind_apply, hpath.fetch, Outcome.andThen_done, bind_apply,
      requests_andThen fun _ _ ↦ requests_enterDescriptor r _ _, requests_lindCall]
  | _ => exact absurd rfl hargs

end Calls

/-- **Paths.** `get_path` returns the string at an address, in one round for every four bytes of it
and one more, and with every store inside the buffer, which has 4096 bytes doubled some times. Each
of the ten calls sends the strings its arguments point at. -/
theorem paths_exact :
    (∀ {m : ByteMemory} {addr : Word} {path : List Byte}, PathAt m addr path →
      (∀ env log, getPath addr (env, m) log = .done path log) ∧
        (pathRounds m addr (2 ^ 29) 0 pathMax).length = path.length / 4 + 1 ∧
        ∀ round ∈ pathRounds m addr (2 ^ 29) 0 pathMax,
          round.1 + 4 ≤ round.2 ∧ ∃ k, round.2 = 4096 * 2 ^ k) ∧
    ∀ (env : Env) {w : World} (c : LindCall) {paths : List (List Byte)}, w.entering = false →
      c.pathArgs w.regs ≠ [] → List.Forall₂ (PathAt w.tracee.mem) (c.pathArgs w.regs) paths →
        ∃ request, (emulated c.emulation env w).state.requests = request :: w.requests ∧
          request.strings = paths := by
  refine ⟨fun {m addr path} h ↦ ?_, fun env w c paths hflag hargs h ↦ ?_⟩
  · have hshort := h.short
    obtain ⟨-, hlen, hrounds⟩ := h.pathLoop (2 ^ 29) bufferInv_zero (Nat.zero_le _)
      (by omega) []
    exact ⟨h.getPath, hlen, hrounds⟩
  · rw [requests_emulated _ hflag]
    exact requests_of_pathAt c w.regs hargs h

/-- A memory with the string `/` at address zero, and zeros behind it. -/
def slashMemory : ByteMemory := ⟨fun x ↦ some (if x = 0 then 0x2F else 0), fun _ ↦ true⟩

theorem pathAt_slash : PathAt slashMemory 0 [0x2F] where
  short := by decide
  mapped _ _ _ _ := rfl
  bytes j hj := by
    obtain rfl : j = 0 := Nat.lt_one_iff.1 hj
    rfl
  noZero := by decide
  ends := by decide

/-- A stopped tracee with that memory, leaving a call whose first argument is the null pointer. -/
def slashWorld : World where
  regs := argsOf ⟨0, 0, 0, 0, 0, 0, 0, 0, []⟩
  entering := false
  tracee := ⟨⟨0, 0, 0, 0, 0, 0, 0, 0, []⟩, slashMemory⟩
  requests := []
  mappings := []
  errno := 0
  trace := []

theorem paths_exact_rmdir :
    ((∀ env log, getPath 0 (env, slashMemory) log = .done [0x2F] log) ∧
        (pathRounds slashMemory 0 (2 ^ 29) 0 pathMax).length = 1 ∧
        ∀ round ∈ pathRounds slashMemory 0 (2 ^ 29) 0 pathMax,
          round.1 + 4 ≤ round.2 ∧ ∃ k, round.2 = 4096 * 2 ^ k) ∧
      ∃ request, (emulated monitorRmdir Env.blank slashWorld).state.requests = [request] ∧
        request.strings = [[0x2F]] :=
  ⟨paths_exact.1 pathAt_slash, paths_exact.2 Env.blank .rmdir rfl (by decide)
    (.cons pathAt_slash .nil)⟩

end ReferenceMonitor
