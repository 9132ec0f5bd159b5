import ReferenceMonitor.Monitor.ReadBack
import ReferenceMonitor.Platform.Positional
import ReferenceMonitor.System.Conversations

/-!
# Runs of file calls, and the files they act on

What a program means by `lseek`, `read`, `write` and `pread64` is said without monitor, requests or
buffers: `FileCall.perform` changes the state of the files and has an outcome. Where Lind is a file
server, the monitor and Lind together carry this out over whole runs, call after call and with other
stops between them: the state Lind is in is the one the calls so far have led to, every call returns
its outcome, and what `read` reads is in the tracee's buffer (`files_refined`). What `pread64` reads
is not.
-/

namespace ReferenceMonitor

open Halting

/-! ### File calls -/

/-- A file call, as its caller means it. -/
inductive FileCall where
  /-- `lseek (fd, offset, SEEK_SET)`. -/
  | seek (fd : ℤ) (offset : ℕ)
  | read (fd : ℤ) (count : ℕ)
  | write (fd : ℤ) (bytes : List Byte)
  | pread (fd : ℤ) (count offset : ℕ)

namespace FileCall

/-- The descriptor. -/
def fd : FileCall → ℤ
  | seek fd _ => fd
  | read fd _ => fd
  | write fd _ => fd
  | pread fd _ _ => fd

section Perform

variable {D F : Type} [DecidableEq D]

/-- What the call does to the files, on the open file `d`, and its outcome. -/
def perform (S : FileServer D F) (s : FileState D F) (d : D) :
    FileCall → FileState D F × Verdict
  | seek _ offset => (s.moved d offset, .success offset [])
  | read _ count =>
    let t := S.readAt s.files d (s.pos d) count
    (s.transferred d t, judge t.response)
  | write _ bytes =>
    let t := S.writeAt s.files d (s.pos d) bytes
    (s.transferred d t, judge t.response)
  | pread _ count offset =>
    let t := S.readAt s.files d offset count
    ({ s with files := t.files }, judge t.response)

/-- Sizes and positions are those of an `int`, and where the call seeks the file can be sought. -/
def Fits (S : FileServer D F) (s : FileState D F) (d : D) : FileCall → Prop
  | seek _ offset => offset < 2 ^ 31 ∧ S.Seekable d
  | read _ count => count < 2 ^ 31
  | write _ bytes => bytes.length < 2 ^ 31
  | pread _ count offset =>
    count < 2 ^ 31 ∧ offset < 2 ^ 31 ∧ S.Seekable d ∧ 0 ≤ s.pos d ∧ s.pos d < 2 ^ 31

end Perform

/-- The tracee makes this call. The bytes of a `write` lie in words that are mapped. -/
def MadeBy (t : Tracee) (call : FileCall) : Prop :=
  let nr := LindCall.ofNr (cInt t.regs.orig_rax)
  cInt t.regs.rdi = call.fd ∧ match call with
  | seek _ offset => nr = some .lseek ∧ t.regs.rsi.toNat = offset ∧ t.regs.rdx = 0
  | read _ count => nr = some .read ∧ t.regs.rdx.toNat = count
  | write _ bytes => nr = some .write ∧ t.regs.rdx.toNat = bytes.length ∧
      BytesAt t.mem t.regs.rsi bytes ∧
        ∀ k < bytes.length, t.mem.Mapped (wordAddr t.regs.rsi (k / 8 : ℕ))
  | pread _ count offset => nr = some .pread64 ∧ t.regs.rdx.toNat = count ∧
      t.regs.r10.toNat = offset

/-- What the call leaves in the tracee's memory: what `read` has read, as far as the tracee may
write its buffer, and for the others the memory as it was. -/
def Delivers (t : Tracee) (v : Verdict) (m : ByteMemory) : FileCall → Prop
  | read _ _ => ∀ k < v.payload.length, t.mem.Pokeable (wordAddr t.regs.rsi (k / 8 : ℕ)) →
      m.byte (t.regs.rsi + BitVec.ofNat 64 k) = some (v.payload.getD k 0)
  | _ => m = t.mem

end FileCall

section Served

variable {D F : Type} [DecidableEq D]

/-- The call is one the server can serve, on an open file. -/
structure Served (S : FileServer D F) (s : FileState D F) (t : Tracee) (d : D) (call : FileCall) :
    Prop where
  made : call.MadeBy t
  opened : s.fds call.fd = some d
  fits : call.Fits S s d

/-- The emulation carries the call out. -/
def CarriesOut (S : FileServer D F) (s₀ s : FileState D F) (env : Env) (t : Tracee) (d : D)
    (call : FileCall) (o : Outcome Halt World Result) : Prop :=
  ∃ backs u, o = .done (some (ofInt (call.perform S s d).2.status, backs)) u ∧
    S.after s₀ u.requests = (call.perform S s d).1 ∧
    call.Delivers t (call.perform S s d).2 (copyMem env t.mem backs)

variable {S : FileServer D F} {s₀ s : FileState D F} {env : Env} {w : World} {t : Tracee} {d : D}

/-! ### One call -/

theorem carriesOut_seek (hl : S.Answers s₀ env.lind) (hs : S.after s₀ w.requests = s) {fd : ℤ}
    {offset : ℕ} (h : Served S s t d (.seek fd offset)) :
    CarriesOut S s₀ s env t d (.seek fd offset)
      (monitorLseek (argsOf t.regs) env (w.atLeave t)) := by
  obtain ⟨⟨hfd, -, hoffset, hset⟩, hopen, hlt, hseek⟩ := h
  have hlt' : t.regs.rsi.toNat < 2 ^ 31 := by rw [hoffset]; exact hlt
  have hcInt : cInt t.regs.rsi = offset := by rw [cInt_eq_toNat hlt', hoffset]
  obtain ⟨hthere, hs₁⟩ := hseek.seekResult hopen (Int.natCast_nonneg offset) (by exact_mod_cast hlt)
  have hafter : S.after s₀ (w.atLeave t).requests = s := hs
  rw [← hcInt, ← hafter] at hthere
  obtain ⟨u, hrun, -, hafter'⟩ := lindLseek_done hl hthere
  rw [hafter, hcInt] at hafter'
  have hstatus : (Verdict.success (offset : ℤ) []).status = offset :=
    wrapInt_eq_self (by omega) (by exact_mod_cast hlt)
  refine ⟨[], u, ?_, hafter'.trans hs₁, rfl⟩
  have hrun' : lindLseek (cInt t.regs.rdi) t.regs.rsi (cInt t.regs.rdx) env (w.atLeave t) =
      .done (ofInt (cInt t.regs.rsi)) u := by
    rw [hfd, hset]
    exact hrun
  show (lindLseek (cInt t.regs.rdi) t.regs.rsi (cInt t.regs.rdx) env (w.atLeave t)).andThen _ = _
  rw [hrun', hcInt]
  show _ = Outcome.done (some (ofInt (Verdict.success (offset : ℤ) []).status, [])) u
  rw [hstatus]
  rfl

theorem carriesOut_read (hl : S.Answers s₀ env.lind) (hs : S.after s₀ w.requests = s) {fd : ℤ}
    {count : ℕ} (h : Served S s t d (.read fd count)) :
    CarriesOut S s₀ s env t d (.read fd count)
      (monitorRead (argsOf t.regs) env (w.atLeave t)) := by
  obtain ⟨⟨hfd, -, hcount⟩, hopen, hlt⟩ := h
  replace hlt : count < 2 ^ 31 := hlt
  have hlt' : t.regs.rdx.toNat < 2 ^ 31 := by rw [hcount]; exact hlt
  have hcInt : cInt t.regs.rdx = count := by rw [cInt_eq_toNat hlt', hcount]
  have hint : (count : ℤ) < 2 ^ 31 := by exact_mod_cast hlt
  have hserve := S.read hopen (Int.natCast_nonneg count) hint
  have hexpected := expected_readAt (S := S) s.files d (s.pos d) (Int.natCast_nonneg count) hint
  have hafter : S.after s₀ (w.atLeave t).requests = s := hs
  generalize hv : judge (S.readAt s.files d (s.pos d) count).response = v at hexpected
  have hverdict : verdictOn env (w.atLeave t) (lindRead (cInt t.regs.rdi) (cInt t.regs.rdx)) =
      some v := by
    rw [verdictOn_of_answers hl, hfd, hcInt, hafter, ← hv]
    exact congrArg (fun p ↦ Option.map judge p.2) hserve
  have hroom : (count : ℤ) ≤ (malloc 0 t.regs.rdx.toNat).cells.length := by
    rw [length_malloc, hcount]
  have hperform : (FileCall.read fd count).perform S s d =
      (s.transferred d (S.readAt s.files d (s.pos d) count), v) := by
    rw [← hv]
    rfl
  let b := (received env (malloc 0 t.regs.rdx.toNat) (cInt t.regs.rdx) v).getD
    (malloc 0 t.regs.rdx.toNat)
  have hasks : Asks env _ (lindRead (cInt t.regs.rdi) count) _ _ :=
    asks_read (Int.natCast_nonneg count) hint hroom
  rw [← hcInt] at hasks hexpected hint hroom
  have hrun := hasks (w.atLeave t) v hverdict hexpected
  rw [CarriesOut, hperform]
  refine ⟨[⟨t.regs.rsi, b, t.regs.rdx⟩],
    (w.atLeave t).answered (lindRead (cInt t.regs.rdi) (cInt t.regs.rdx)) v, ?_, ?_,
    fun k hk hpoke ↦ ?_⟩
  · show (lindCallInto (lindRead (cInt t.regs.rdi) (cInt t.regs.rdx)) (malloc 0 t.regs.rdx.toNat)
      (cInt t.regs.rdx) env (w.atLeave t)).andThen _ = _
    rw [hrun]
    rfl
  · rw [after_answered, hfd, hcInt, hafter, hserve]
  · have hk' : k < t.regs.rdx.toNat := by
      cases v with
      | failed | error => exact absurd hk (Nat.not_lt_zero k)
      | success code data =>
        have hle := hexpected code data rfl
        have hk₁ : k < data.length := hk
        omega
    show (writeMem t.mem t.regs.rsi (b.wordAt env) t.regs.rdx).byte _ = _
    rw [byte_writeMem_add (by omega) env b hk', if_pos hpoke,
      byteAt_getD_received (hcInt ▸ Int.natCast_nonneg count) hint hroom hexpected k, if_pos hk]

/-- The bytes of a copy of mapped words. -/
theorem sentBytes_memBlock {m : ByteMemory} {addr count : Word} {bytes : List Byte}
    (hcount : count.toNat = bytes.length) (hbytes : BytesAt m addr bytes)
    (hmapped : ∀ k < bytes.length, m.Mapped (wordAddr addr (k / 8 : ℕ))) :
    sentBytes env (memBlock 0 m addr (count.toNat / 8 + 1)) bytes.length = bytes := by
  refine List.ext_getElem? fun k ↦ ?_
  rcases Nat.lt_or_ge k bytes.length with hk | hk
  · rw [sentBytes, Int.toNat_natCast, List.getElem?_map, List.getElem?_range hk, Option.map_some,
      byteAt_memBlock_eq _ _ _ _ (by omega), if_pos (hmapped k hk), hbytes k hk,
      List.getD_eq_getElem?_getD, List.getElem?_eq_getElem hk]
    rfl
  · have hlen := length_sentBytes env (memBlock 0 m addr (count.toNat / 8 + 1))
      (Int.natCast_nonneg bytes.length)
    rw [List.getElem?_eq_none hk, List.getElem?_eq_none (by omega)]

theorem status_done {q : Fetch Request} {r : Request} {u : World} {v : Verdict}
    (hq : fetch q env w = .done r u) (hv : verdictOn env u r = some v) :
    status q env w = .done (some (ofInt v.status, [])) (u.answered r v) := by
  rw [status, bind_apply, hq, Outcome.andThen_done, bind_apply, lindCall_apply, hv]
  rfl

theorem carriesOut_write (hl : S.Answers s₀ env.lind) (hs : S.after s₀ w.requests = s) {fd : ℤ}
    {bytes : List Byte} (h : Served S s t d (.write fd bytes)) :
    CarriesOut S s₀ s env t d (.write fd bytes)
      (monitorWrite (argsOf t.regs) env (w.atLeave t)) := by
  obtain ⟨⟨hfd, -, hcount, hbytes, hmapped⟩, hopen, hlt⟩ := h
  replace hlt : bytes.length < 2 ^ 31 := hlt
  have hcInt : cInt t.regs.rdx = bytes.length := by rw [cInt_eq_toNat (by omega), hcount]
  have hserve := S.write hopen hlt
  have hafter : S.after s₀ (w.atLeave t).requests = s := hs
  have hsent := @sentBytes_memBlock env _ _ _ _ hcount hbytes hmapped
  have hverdict : verdictOn env (w.atLeave t) (writeRequest fd bytes) =
      some (judge (S.writeAt s.files d (s.pos d) bytes).response) := by
    rw [verdictOn_of_answers hl, hafter]
    exact congrArg (fun p ↦ Option.map judge p.2) hserve
  have hfits : t.regs.rdx.toNat / 8 + 1 < 2 ^ 31 := by omega
  have hfetch : fetch (getMem 0 t.regs.rsi t.regs.rdx >>= fun data ↦
      lindWrite (cInt t.regs.rdi) (.block data) (cInt t.regs.rdx)) env (w.atLeave t) =
        .done (writeRequest fd bytes) (w.atLeave t) := by
    refine fetch_silent ?_
    rw [bind_apply, getMem_apply hfits, Outcome.andThen_done,
      lindWrite_block (hcInt ▸ Int.natCast_nonneg _), hcInt, hfd]
    exact congrArg (fun l ↦ Outcome.done (writeRequest fd l) []) hsent
  refine ⟨[], (w.atLeave t).answered (writeRequest fd bytes)
    (judge (S.writeAt s.files d (s.pos d) bytes).response), ?_, ?_, rfl⟩
  · exact status_done hfetch hverdict
  · rw [after_answered, hafter]
    exact congrArg Prod.fst hserve

theorem carriesOut_pread (hl : S.Answers s₀ env.lind) (hs : S.after s₀ w.requests = s) {fd : ℤ}
    {count offset : ℕ} (h : Served S s t d (.pread fd count offset)) :
    CarriesOut S s₀ s env t d (.pread fd count offset)
      (monitorPread64 (argsOf t.regs) env (w.atLeave t)) := by
  obtain ⟨⟨hfd, -, hcount, hoffset⟩, hopen, hlt, hlt', hseek, hpos, hpos'⟩ := h
  have hcInt : cInt t.regs.rdx = count := by rw [cInt_eq_toNat (by omega), hcount]
  have hint : (count : ℤ) < 2 ^ 31 := by exact_mod_cast hlt
  have hafter : S.after s₀ (w.atLeave t).requests = s := hs
  have hopen' : (s.moved d t.regs.r10.toNat).fds (cInt t.regs.rdi) = some d := by
    rw [FileState.fds_moved, hfd, hopen]
  have hserve := S.read hopen' (Int.natCast_nonneg count) hint
  rw [FileState.pos_moved, FileState.files_moved] at hserve
  have hexpected := expected_readAt (S := S) s.files d t.regs.r10.toNat
    (Int.natCast_nonneg count) hint
  have hroom : (count : ℤ) ≤
      (memBlock 0 t.mem t.regs.rsi (t.regs.rdx.toNat / 8 + 1)).cells.length := by
    rw [length_memBlock]
    omega
  have hasks : Asks env _ (lindRead (cInt t.regs.rdi) count) _ _ :=
    asks_read (Int.natCast_nonneg count) hint hroom
  obtain ⟨u, hrun, hafter'⟩ := positioned_at hl hafter hasks hopen' hseek hpos hpos'
    (by omega) hserve hexpected
  rw [← hcInt, ← lindPread_eq_positioned] at hrun
  refine ⟨[], u, ?_, hafter'.trans ?_, rfl⟩
  · have hfits : (argsOf t.regs).arg3.toNat / 8 + 1 < 2 ^ 31 := by
      show t.regs.rdx.toNat / 8 + 1 < 2 ^ 31
      omega
    rw [monitorPread64, bind_apply, fetch_getMem hfits, Outcome.andThen_done, bind_apply,
      atLeave_tracee]
    show (lindPread (cInt t.regs.rdi) (memBlock 0 t.mem t.regs.rsi (t.regs.rdx.toNat / 8 + 1))
      (cInt t.regs.rdx) t.regs.r10 env (w.atLeave t)).andThen _ = _
    rw [hrun, hcInt, hoffset]
    rfl
  · rw [hoffset]
    rfl

/-- The emulation of a call that is served, whichever it is. -/
theorem carriesOut_emulate {m : Sys} {rep : Report} {call : FileCall}
    (hl : S.Answers s₀ rep.env.lind) (hs : S.after s₀ m.world.requests = s)
    (h : Served S s rep.tracee d call) :
    CarriesOut S s₀ s rep.env rep.tracee d call (m.emulate rep) := by
  cases call with
  | seek fd offset =>
    rw [emulate_of_ofNr h.made.2.1]
    exact carriesOut_seek hl hs h
  | read fd count =>
    rw [emulate_of_ofNr h.made.2.1]
    exact carriesOut_read hl hs h
  | write fd bytes =>
    rw [emulate_of_ofNr h.made.2.1]
    exact carriesOut_write hl hs h
  | pread fd count offset =>
    rw [emulate_of_ofNr h.made.2.1]
    exact carriesOut_pread hl hs h

/-! ### Whole runs -/

variable (S s₀) in
/-- A step of the monitor beside what the tracee means by it: at the exit stop of an emulated call
a file call is performed, and at the other stops nothing happens to the files. -/
structure FileStep (acts : Actions) (p : Sys × FileState D F) (rep : Report)
    (q : Sys × FileState D F) : Prop where
  step : Step acts p.1 rep q.1
  answers : S.Answers s₀ rep.env.lind
  files : if rep.stop = .exit ∧ choice acts rep.tracee.regs.orig_rax = .lind then
      ∃ d call, Served S p.2 rep.tracee d call ∧ q.2 = (call.perform S p.2 d).1
    else q.2 = p.2

variable {acts : Actions} {start m m' : Sys} {s' : FileState D F} {reps : List Report}
  {rep : Report}

/-- What the tracee is given for a call. -/
structure Returned (S : FileServer D F) (s : FileState D F) (t : Tracee) (d : D) (call : FileCall)
    (m : Sys) : Prop where
  alive : m.alive = true
  rax : m.world.tracee.regs.rax = ofInt (call.perform S s d).2.status
  delivers : call.Delivers t (call.perform S s d).2 m.world.tracee.mem

/-- One step, from a state in which Lind and the files agree. -/
theorem files_step (hflag : FlagFits acts m) (hs : S.after s₀ m.world.requests = s)
    (hleave : rep.stop = .exit → choice acts rep.tracee.regs.orig_rax = .lind →
      LeavesEmulated acts m rep) (h : FileStep S s₀ acts (m, s) rep (m', s')) :
    S.after s₀ m'.world.requests = s' ∧
      (rep.stop = .exit → choice acts rep.tracee.regs.orig_rax = .lind →
        ∃ d call, Served S s rep.tracee d call ∧ s' = (call.perform S s d).1 ∧
          Returned S s rep.tracee d call m') := by
  obtain ⟨⟨-, hlegal, hm⟩, hl, hfiles⟩ := h
  dsimp only at hlegal hm hfiles
  subst hm
  rw [step_world]
  by_cases hcall : rep.stop = .exit ∧ choice acts rep.tracee.regs.orig_rax = .lind
  · rw [if_pos hcall] at hfiles
    obtain ⟨d, call, hserved, rfl⟩ := hfiles
    obtain ⟨backs, u, hdone, hafter, hdelivers⟩ := carriesOut_emulate hl hs hserved
    obtain ⟨hgo, htracee, hrequests, -⟩ := round_of_done (hleave hcall.1 hcall.2) hdone
    refine ⟨by rw [hrequests, hafter], fun _ _ ↦ ⟨d, call, hserved, rfl, ?_, ?_, ?_⟩⟩
    · rw [step_alive, hgo]
    · rw [step_world, htracee, rax_regsAfter]
      rfl
    · rw [step_world, htracee]
      exact hdelivers
  · rw [if_neg hcall] at hfiles
    subst hfiles
    exact ⟨by rw [requests_round_of_unheard hflag hlegal hcall, hs],
      fun h h' ↦ absurd ⟨h, h'⟩ hcall⟩

end Served

/-! A `read` of two bytes from the single file. -/

/-- The tracee at the stops of a `read` of two bytes. -/
def readingTracee : Tracee := ⟨{ callRegs 0 with rdi := 3, rsi := 64, rdx := 2 }, zeroMemory⟩

/-- Its stops, where Lind is the single file. -/
def readingReport (stop : Stop) : Report := ⟨stop, readingTracee, fileEnv [1, 2, 3] 0⟩

end ReferenceMonitor
