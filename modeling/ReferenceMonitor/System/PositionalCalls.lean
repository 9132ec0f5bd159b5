import ReferenceMonitor.Monitor.ReadBack
import ReferenceMonitor.Platform.Gathering
import ReferenceMonitor.Platform.Positional
import ReferenceMonitor.System.ExitStops

/-!
# The positional calls of the tracee: `pread64` and `pwritev`

`monitor_pread64` hands `lind_pread` a copy of the tracee's buffer and never copies it back;
`monitor_read` does. So the two ways to read at an offset return the same number, and the bytes are
the same only where the tracee's buffer holds already what was read, or cannot be written.

`monitor_pwritev` hands `lind_pwrite` the vector in place of what its elements point at, and the
number of elements as the number of bytes.
-/

namespace ReferenceMonitor

open Halting

section Pread64

variable {D F : Type} [DecidableEq D] {S : FileServer D F} {s₀ s : FileState D F} {d : D}
  {env env₁ env₂ : Env} {w : World} {t : Tracee}

/-- The registers of `lseek (fd, offset, SEEK_SET)`, with those of `pread64 (fd, .., offset)`. -/
def lseekRegsOf (r r₁ : UserRegs) : UserRegs := { r₁ with rdi := r.rdi, rsi := r.r10, rdx := 0 }

/-- The registers of `read (fd, buf, count)`, with those of `pread64 (fd, buf, count, ..)`. -/
def readRegsOf (r r₂ : UserRegs) : UserRegs :=
  { r₂ with rdi := r.rdi, rsi := r.rsi, rdx := r.rdx }

/-- The tracee after `lseek` and `read`, emulated one after the other. The entry stop of `read` has
cleared the flag in between. -/
def SeeksAndReads (env₁ env₂ : Env) (w : World) (t : Tracee) (r₁ r₂ : UserRegs) (t' : Tracee) :
    Prop :=
  ∃ u u', emulated monitorLseek env₁ (w.atStop ⟨lseekRegsOf t.regs r₁, t.mem⟩) = .done () u ∧
    emulated monitorRead env₂
      ({ u with entering := false }.atStop ⟨readRegsOf t.regs r₂, u.tracee.mem⟩) = .done () u' ∧
    u'.tracee = t'

theorem SeeksAndReads.unique {r₁ r₂ : UserRegs} {t' t'' : Tracee}
    (h : SeeksAndReads env₁ env₂ w t r₁ r₂ t') (h' : SeeksAndReads env₁ env₂ w t r₁ r₂ t'') :
    t' = t'' := by
  obtain ⟨u, v, hseek, hread, rfl⟩ := h
  obtain ⟨u', v', hseek', hread', rfl⟩ := h'
  rw [hseek] at hseek'
  cases hseek'
  rw [hread] at hread'
  cases hread'
  rfl

/-- `pread64` and the two calls give the tracee the same `rax`, and as many bytes of its buffer. -/
def Pread64Agrees (env env₁ env₂ : Env) (w : World) (t : Tracee) (r₁ r₂ : UserRegs) : Prop :=
  ∃ w' t', emulated monitorPread64 env (w.atStop t) = .done () w' ∧
    SeeksAndReads env₁ env₂ w t r₁ r₂ t' ∧ w'.tracee.regs.rax = t'.regs.rax ∧
    ∀ k < t'.regs.rax.toNat, w'.tracee.mem.byte (t.regs.rsi + BitVec.ofNat 64 k) =
      t'.mem.byte (t.regs.rsi + BitVec.ofNat 64 k)

/-- `pread64` on an open file. The memory stays as it is. -/
theorem emulated_pread64 (hl : S.Answers s₀ env.lind) (hflag : w.entering = false)
    (hs : S.after s₀ w.requests = s) (hfd : s.fds (cInt t.regs.rdi) = some d)
    (hseek : S.Seekable d) (hcount : t.regs.rdx.toNat < 2 ^ 31)
    (hoffset : t.regs.r10.toNat < 2 ^ 31) {data : List Byte}
    (hread : judge (S.readAt s.files d t.regs.r10.toNat t.regs.rdx.toNat).response =
      .success data.length data) :
    ∃ w', emulated monitorPread64 env (w.atStop t) = .done () w' ∧
      w'.tracee = ⟨{ t.regs with rax := ofInt data.length }, t.mem⟩ := by
  have hcInt : cInt t.regs.rdx = t.regs.rdx.toNat := cInt_eq_toNat hcount
  have hcInt' : cInt t.regs.r10 = t.regs.r10.toNat := cInt_eq_toNat hoffset
  have hexpected := expected_readAt (S := S) s.files d t.regs.r10.toNat
    (Int.natCast_nonneg t.regs.rdx.toNat) (by omega)
  have hle := hexpected _ _ hread
  obtain ⟨p, hp⟩ := exists_restores (S := S) s (cInt t.regs.rdi)
  obtain ⟨hthere, hs₁⟩ := hseek.seekResult hfd (p := t.regs.r10.toNat) (by omega) (by omega)
  have hfd' : (s.moved d t.regs.r10.toNat).fds (cInt t.regs.rdi) = some d := hfd
  have hserve := S.read hfd' (Int.natCast_nonneg t.regs.rdx.toNat) (by omega)
  rw [FileState.pos_moved, FileState.files_moved] at hserve
  obtain ⟨pos', errno', hback⟩ := exists_seekResult (S := S)
    ((s.moved d t.regs.r10.toNat).transferred d
      (S.readAt s.files d t.regs.r10.toNat t.regs.rdx.toNat)) (cInt t.regs.rdi) p
  have hroom : (t.regs.rdx.toNat : ℤ) ≤
      (memBlock 0 t.mem t.regs.rsi (t.regs.rdx.toNat / 8 + 1)).cells.length := by
    rw [length_memBlock]
    omega
  have hasks : Asks env _ (lindRead (cInt t.regs.rdi) t.regs.rdx.toNat) _ _ :=
    asks_read (Int.natCast_nonneg _) (by omega) hroom
  rw [← hcInt'] at hthere hs₁
  obtain ⟨u, hrun, -⟩ := positioned_done (w := w.atLeave t) hl hs hasks hp hthere hs₁
    (hcInt' ▸ hserve) hexpected hback rfl
  rw [hread, Verdict.status, wrapInt_eq_self (by omega) (by omega), ← hcInt,
    ← lindPread_eq_positioned] at hrun
  have hemulation : LindCall.pread64.emulation (argsOf t.regs) env (w.atLeave t) =
      .done (some (ofInt data.length, [])) u := by
    show monitorPread64 (argsOf t.regs) env (w.atLeave t) = _
    rw [monitorPread64, bind_apply, fetch_getMem (show _ < _ by dsimp only [argsOf]; omega),
      Outcome.andThen_done, bind_apply, atLeave_tracee]
    exact congrArg (fun o : Outcome Halt World (ℤ × Block) ↦ o.andThen _) hrun
  obtain ⟨w', hdone, htracee, -⟩ := emulated_done (by decide) hflag hemulation
  exact ⟨w', hdone, htracee⟩

/-- `lseek` on an open file. -/
theorem emulated_lseek (hl : S.Answers s₀ env.lind) (hflag : w.entering = false)
    (hs : S.after s₀ w.requests = s) (hfd : s.fds (cInt t.regs.rdi) = some d)
    (hseek : S.Seekable d) (hoffset : t.regs.rsi.toNat < 2 ^ 31) (hset : t.regs.rdx = 0) :
    ∃ w', emulated monitorLseek env (w.atStop t) = .done () w' ∧ w'.tracee.mem = t.mem ∧
      S.after s₀ w'.requests = s.moved d t.regs.rsi.toNat := by
  have hcInt : cInt t.regs.rsi = t.regs.rsi.toNat := cInt_eq_toNat hoffset
  obtain ⟨hthere, hs₁⟩ := hseek.seekResult hfd (p := t.regs.rsi.toNat) (by omega) (by omega)
  have hafter : S.after s₀ (w.atLeave t).requests = s := hs
  rw [← hcInt, ← hafter] at hthere
  obtain ⟨u, hrun, -, hafter'⟩ := lindLseek_done hl hthere
  rw [hafter, hcInt, hs₁] at hafter'
  have hemulation : LindCall.lseek.emulation (argsOf t.regs) env (w.atLeave t) =
      .done (some (ofInt t.regs.rsi.toNat, [])) u := by
    have hwhence : cInt (argsOf t.regs).arg3 = SEEK_SET := by
      rw [show (argsOf t.regs).arg3 = 0 from hset]
      rfl
    show monitorLseek (argsOf t.regs) env (w.atLeave t) = _
    rw [hcInt] at hrun
    rw [monitorLseek, bind_apply, hwhence]
    show (lindLseek (cInt t.regs.rdi) t.regs.rsi SEEK_SET env (w.atLeave t)).andThen _ = _
    rw [hrun]
    rfl
  obtain ⟨w', hdone, htracee, hrequests⟩ := emulated_done (by decide) hflag hemulation
  refine ⟨w', hdone, ?_, ?_⟩
  · rw [htracee]
    rfl
  · rw [hrequests, hafter']

/-- `lseek` and `read` on an open file. The bytes are copied back, as far as `set_mem` can. -/
theorem seeksAndReads_done (hl₁ : S.Answers s₀ env₁.lind) (hl₂ : S.Answers s₀ env₂.lind)
    (hflag : w.entering = false) (hs : S.after s₀ w.requests = s)
    (hfd : s.fds (cInt t.regs.rdi) = some d) (hseek : S.Seekable d)
    (hcount : t.regs.rdx.toNat < 2 ^ 31) (hoffset : t.regs.r10.toNat < 2 ^ 31) {data : List Byte}
    (hread : judge (S.readAt s.files d t.regs.r10.toNat t.regs.rdx.toNat).response =
      .success data.length data) (r₁ r₂ : UserRegs) :
    ∃ b : Block, (∀ k < data.length, b.byteAt env₂ k = data.getD k 0) ∧
      SeeksAndReads env₁ env₂ w t r₁ r₂ ⟨{ readRegsOf t.regs r₂ with rax := ofInt data.length },
        writeMem t.mem t.regs.rsi (b.wordAt env₂) t.regs.rdx⟩ := by
  have hcInt : cInt t.regs.rdx = t.regs.rdx.toNat := cInt_eq_toNat hcount
  have hle := expected_readAt (S := S) s.files d t.regs.r10.toNat
    (Int.natCast_nonneg t.regs.rdx.toNat) (by omega) _ _ hread
  obtain ⟨u, hrun, hmem, hafter⟩ := emulated_lseek (t := ⟨lseekRegsOf t.regs r₁, t.mem⟩) hl₁
    hflag hs hfd hseek hoffset rfl
  have hfd' : (s.moved d t.regs.r10.toNat).fds (cInt t.regs.rdi) = some d := hfd
  have hserve := S.read hfd' (Int.natCast_nonneg t.regs.rdx.toNat) (by omega)
  rw [FileState.pos_moved, FileState.files_moved] at hserve
  have hlind : env₂.lind (lindRead (cInt t.regs.rdi) (cInt t.regs.rdx) :: u.requests) =
      some (S.readAt s.files d t.regs.r10.toNat t.regs.rdx.toNat).response := by
    rw [hl₂, hafter, hcInt]
    exact congrArg Prod.snd hserve
  obtain ⟨b, hb⟩ : ∃ b, received env₂ (malloc 0 t.regs.rdx.toNat) (cInt t.regs.rdx)
      (.success data.length data) = some b :=
    ⟨_, received_of_fits
      (fits_of_room (by omega) (by omega) (.inl (by rw [length_malloc]; omega))) _⟩
  refine ⟨b, fun k hk ↦ ?_, u, ?_⟩
  · rw [byteAt_received (by omega) hb, if_pos (by omega)]
  · have hfill : LindCall.read.emulation (argsOf (readRegsOf t.regs r₂)) =
        fill (bufferOutput (argsOf t.regs)) fun _ ↦
          pure (lindRead (cInt t.regs.rdi) (cInt t.regs.rdx)) := rfl
    obtain ⟨u', hrun', htracee, -⟩ := emulated_fill (t := ⟨readRegsOf t.regs r₂, u.tracee.mem⟩)
      (w := { u with entering := false }) (by decide) hfill rfl rfl hlind (hread ▸ hb)
    refine ⟨u', hrun, hrun', ?_⟩
    rw [htracee, hread, Verdict.status, wrapInt_eq_self (by omega) (by omega), hmem]
    rfl

section Agreement

variable (hl : S.Answers s₀ env.lind) (hl₁ : S.Answers s₀ env₁.lind) (hl₂ : S.Answers s₀ env₂.lind)
  (hflag : w.entering = false) (hs : S.after s₀ w.requests = s)
  (hfd : s.fds (cInt t.regs.rdi) = some d) (hseek : S.Seekable d)
  (hcount : t.regs.rdx.toNat < 2 ^ 31) (hoffset : t.regs.r10.toNat < 2 ^ 31) {data : List Byte}
  (hread : judge (S.readAt s.files d t.regs.r10.toNat t.regs.rdx.toNat).response =
    .success data.length data) (r₁ r₂ : UserRegs)

include hl hl₁ hl₂ hflag hs hfd hseek hcount hoffset hread

/-- The two runs: they end with the same `rax`, the one with the old memory, and the other with the
bytes read wherever `set_mem` can put them. -/
theorem pread64_runs : ∃ w' t', emulated monitorPread64 env (w.atStop t) = .done () w' ∧
    (∀ t'', SeeksAndReads env₁ env₂ w t r₁ r₂ t'' ↔ t'' = t') ∧
    w'.tracee.regs.rax = t'.regs.rax ∧ t'.regs.rax.toNat = data.length ∧ w'.tracee.mem = t.mem ∧
    ∀ k < data.length, t'.mem.byte (t.regs.rsi + BitVec.ofNat 64 k) =
      if t.mem.Pokeable (wordAddr t.regs.rsi (k / 8 : ℕ)) then some (data.getD k 0)
      else t.mem.byte (t.regs.rsi + BitVec.ofNat 64 k) := by
  have hle := expected_readAt (S := S) s.files d t.regs.r10.toNat
    (Int.natCast_nonneg t.regs.rdx.toNat) (by omega) _ _ hread
  obtain ⟨w', hrun, htracee⟩ := emulated_pread64 hl hflag hs hfd hseek hcount hoffset hread
  obtain ⟨b, hb, hruns⟩ := seeksAndReads_done hl₁ hl₂ hflag hs hfd hseek hcount hoffset hread r₁ r₂
  refine ⟨w', _, hrun, fun t'' ↦ ⟨fun h ↦ h.unique hruns, ?_⟩, by rw [htracee], ?_, by rw [htracee],
    fun k hk ↦ ?_⟩
  · rintro rfl
    exact hruns
  · rw [ofInt, BitVec.ofInt_natCast, BitVec.toNat_ofNat, Nat.mod_eq_of_lt (by omega)]
  · rw [byte_writeMem_add (by omega) env₂ b (by omega), hb k hk]

/-- **Reading at an offset.** `pread64` gives the tracee what `lseek` and `read` give it exactly
where every byte that `read` would put into the buffer is there already. -/
theorem pread64_agrees_iff : Pread64Agrees env env₁ env₂ w t r₁ r₂ ↔
    ∀ k < data.length, t.mem.Pokeable (wordAddr t.regs.rsi (k / 8 : ℕ)) →
      t.mem.byte (t.regs.rsi + BitVec.ofNat 64 k) = some (data.getD k 0) := by
  obtain ⟨w', t', hrun, hruns, hrax, hlen, hmem, hbyte⟩ :=
    pread64_runs hl hl₁ hl₂ hflag hs hfd hseek hcount hoffset hread r₁ r₂
  constructor
  · rintro ⟨v, t'', hrun', hruns', -, hbytes⟩ k hk hpoke
    obtain rfl := (hruns t'').1 hruns'
    rw [hrun] at hrun'
    cases hrun'
    rw [hlen, hmem] at hbytes
    rw [hbytes k hk, hbyte k hk, if_pos hpoke]
  · intro hcond
    refine ⟨w', t', hrun, (hruns t').2 rfl, hrax, fun k hk ↦ ?_⟩
    rw [hlen] at hk
    rw [hmem, hbyte k hk]
    split
    · exact hcond k hk ‹_›
    · rfl

end Agreement

end Pread64

/-- A tracee that reads two bytes at `1` of descriptor `3`, into a memory of zeros. -/
def preadTracee : Tracee :=
  ⟨{ callRegs 17 with rdi := 3, rsi := 64, rdx := 2, r10 := 1 }, zeroMemory⟩

/-- A file of zeros. -/
theorem pread64_agrees_iff_zeros :
    Pread64Agrees (fileEnv [0, 0, 0] 0) (fileEnv [0, 0, 0] 0) (fileEnv [0, 0, 0] 0) zeroWorld
        preadTracee (callRegs 8) (callRegs 0) ↔
      ∀ k < [(0 : Byte), 0].length,
        zeroMemory.Pokeable (wordAddr preadTracee.regs.rsi (k / 8 : ℕ)) →
          zeroMemory.byte (preadTracee.regs.rsi + BitVec.ofNat 64 k) =
            some ([0, 0].getD k 0) := by
  have hread : judge (fileServer.readAt [0, 0, 0] () preadTracee.regs.r10.toNat
      preadTracee.regs.rdx.toNat).response = .success [(0 : Byte), 0].length [0, 0] := by decide
  have hl := answers_fileEnv [0, 0, 0] 0
  exact pread64_agrees_iff (w := zeroWorld) hl hl hl rfl rfl rfl (seekable_fileServer ())
    (by decide) (by decide) hread _ _

/-- A file with something in it: the bytes read never get to the tracee. -/
theorem not_pread64_agrees :
    ¬ Pread64Agrees (fileEnv [1, 2, 3] 0) (fileEnv [1, 2, 3] 0) (fileEnv [1, 2, 3] 0) zeroWorld
        preadTracee (callRegs 8) (callRegs 0) := by
  have hread : judge (fileServer.readAt [1, 2, 3] () preadTracee.regs.r10.toNat
      preadTracee.regs.rdx.toNat).response = .success [(2 : Byte), 3].length [2, 3] := by decide
  have hl := answers_fileEnv [1, 2, 3] 0
  obtain ⟨w', t', hrun, hruns, -, hlen, hmem, hbyte⟩ := pread64_runs (w := zeroWorld) hl hl hl rfl
    rfl rfl (seekable_fileServer ()) (by decide) (by decide) hread (callRegs 8) (callRegs 0)
  rintro ⟨v, t'', hrun', hruns', -, hbytes⟩
  obtain rfl := (hruns t'').1 hruns'
  rw [hrun] at hrun'
  cases hrun'
  rw [hlen, hmem] at hbytes
  have hsame := (hbytes 0 (by decide)).trans (hbyte 0 (by decide))
  rw [if_pos (by decide)] at hsame
  exact absurd hsame (by decide)

/-! ### A vector of buffers -/

/-- An array of `struct iovec`s, and the buffers they stand for. -/
def VectorAt (m : ByteMemory) (addr : Word) (pieces : List (List Byte)) : Prop :=
  ∀ i piece, pieces[i]? = some piece → ∃ base,
    BytesAt m (addr + BitVec.ofNat 64 (16 * i)) (iovecBytes base piece.length) ∧
      BytesAt m base piece

/-- Lind answers whatever it is asked, and no payload is longer than an `int` counts. -/
def Answering (env : Env) : Prop :=
  ∀ r past, ∃ resp, env.lind (r :: past) = some resp ∧ (judge resp).payload.length < 2 ^ 31

section Pwritev

variable {env : Env} {w : World} {t : Tracee} {pieces : List (List Byte)}

/-- `pwritev` has Lind write the buffers, one after the other, at its offset, and returns what Lind
returns. -/
def PwritevGathers (env : Env) (w : World) (t : Tracee) (pieces : List (List Byte)) : Prop :=
  ∃ w' restore resp, emulated monitorPwritev env (w.atStop t) = .done () w' ∧
    w'.requests = restore :: writeRequest (cInt t.regs.rdi) pieces.flatten ::
      seekRequest t.regs.r10.toInt (cInt t.regs.rdi) SEEK_SET :: queryRequest (cInt t.regs.rdi) ::
        w.requests ∧
    env.lind w'.requests.tail = some resp ∧ w'.tracee.regs.rax = ofInt (judge resp).status

/-- The bytes are the first `count` of the tracee at `addr`; where `count` is negative as an `int`,
those of its copy up to the first zero. -/
def TakenFrom (env : Env) (m : ByteMemory) (addr count : Word) (bytes : List Byte) : Prop :=
  if 0 ≤ cInt count then (bytes.length : ℤ) = cInt count ∧ BytesAt m addr bytes
  else bytes = cString env (memBlock 0 m addr (count.toNat / 8 + 1))

/-- Where Lind answers, `lseek` returns. -/
theorem lindLseek_answered (hl : Answering env) (fd whence : ℤ) (offset : Word) (w : World) :
    ∃ pos u, lindLseek fd offset whence env w = .done pos u ∧
      u.requests = seekRequest (cInt offset) fd whence :: w.requests := by
  obtain ⟨resp, hresp, hlen⟩ := hl (seekRequest (cInt offset) fd whence) w.requests
  have hverdict : verdictOn env w (seekRequest (cInt offset) fd whence) = some (judge resp) := by
    rw [verdictOn, hresp, Option.map_some]
  obtain ⟨b, hb⟩ : ∃ b, received env (malloc 4 8) 8 (judge resp) = some b := by
    cases hv : judge resp with
    | failed | error => exact ⟨_, rfl⟩
    | success code data =>
      rw [hv] at hlen
      exact ⟨_, received_of_fits (fits_of_room hlen (by decide) (.inl (by simp))) code⟩
  refine ⟨if (judge resp).status < 0 then ofInt (judge resp).status else b.wordAt env 0,
    w.answered (seekRequest (cInt offset) fd whence) (judge resp), ?_, requests_answered ..⟩
  rw [lindLseek, ← seekRequest, bind_apply, lindCallInto_apply, hverdict]
  simp only [hb, Outcome.andThen_done, ite_run]
  split <;> rfl

/-- So does `lind_pwrite`, with the status of the answer to its third request. -/
theorem lindPwrite_answered (hl : Answering env) (fd count : ℤ) (b : Block) (offset : Word)
    (w : World) :
    ∃ u restore resp, lindPwrite fd b count offset env w = .done (judge resp).status u ∧
      u.requests = restore :: writeRequest fd (takenBytes env b count) ::
        seekRequest (cInt offset) fd SEEK_SET :: queryRequest fd :: w.requests ∧
      env.lind u.requests.tail = some resp := by
  obtain ⟨cur, w₁, hrun₁, hreq₁⟩ := lindLseek_answered hl fd SEEK_CUR 0 w
  obtain ⟨pos, w₂, hrun₂, hreq₂⟩ := lindLseek_answered hl fd SEEK_SET offset w₁
  set r := writeRequest fd (takenBytes env b count)
  obtain ⟨resp, hresp, -⟩ := hl r w₂.requests
  obtain ⟨pos', w₃, hrun₃, hreq₃⟩ :=
    lindLseek_answered hl fd SEEK_SET cur (w₂.answered r (judge resp))
  have hrequests : (w₂.answered r (judge resp)).requests = r ::
      seekRequest (cInt offset) fd SEEK_SET :: queryRequest fd :: w.requests := by
    rw [requests_answered, hreq₂, hreq₁]
    rfl
  have hwrite : (do lindCall (← fetch (lindWrite fd (.block b) count))) env w₂ =
      .done (judge resp).status (w₂.answered r (judge resp)) := by
    have hfetch : lindWrite fd (.block b) count (env, w₂.tracee.mem) [] = .done r [] := by
      rw [lindWrite, bind_apply, pyBytes_takenBytes]
      rfl
    rw [bind_apply, fetch_done hfetch]
    show lindCall r env w₂ = _
    rw [lindCall_apply, verdictOn, hresp]
    rfl
  refine ⟨w₃, _, resp, ?_, by rw [hreq₃, hrequests], ?_⟩
  · have hrun₁' : lindLseek fd 0 1 env w = .done cur w₁ := hrun₁
    have hrun₂' : lindLseek fd offset 0 env w₁ = .done pos w₂ := hrun₂
    have hrun₃' : lindLseek fd cur 0 env (w₂.answered r (judge resp)) = .done pos' w₃ := hrun₃
    rw [lindPwrite_eq_positioned, positioned, bind_apply, hrun₁', Outcome.andThen_done, bind_apply,
      hrun₂', Outcome.andThen_done, bind_apply, hwrite, Outcome.andThen_done, bind_apply, hrun₃']
    rfl
  · rw [hreq₃, List.tail_cons, requests_answered, hresp]

/-- The emulation, where `get_mem` can count its words. -/
theorem emulated_pwritev (hl : Answering env) (hflag : w.entering = false)
    (hfits : t.regs.rdx.toNat / 8 + 1 < 2 ^ 31) :
    ∃ w' restore resp, emulated monitorPwritev env (w.atStop t) = .done () w' ∧
      w'.requests = restore :: writeRequest (cInt t.regs.rdi) (takenBytes env
          (memBlock 0 t.mem t.regs.rsi (t.regs.rdx.toNat / 8 + 1)) (cInt t.regs.rdx)) ::
        seekRequest (cInt t.regs.r10) (cInt t.regs.rdi) SEEK_SET ::
          queryRequest (cInt t.regs.rdi) :: w.requests ∧
      env.lind w'.requests.tail = some resp ∧ w'.tracee.regs.rax = ofInt (judge resp).status := by
  obtain ⟨u, restore, resp, hrun, hrequests, hresp⟩ := lindPwrite_answered hl (cInt t.regs.rdi)
    (cInt t.regs.rdx) (memBlock 0 t.mem t.regs.rsi (t.regs.rdx.toNat / 8 + 1)) t.regs.r10
    (w.atLeave t)
  have hemulation : LindCall.pwritev.emulation (argsOf t.regs) env (w.atLeave t) =
      .done (some (ofInt (judge resp).status, [])) u := by
    have hfits' : (argsOf t.regs).arg3.toNat / 8 + 1 < 2 ^ 31 := hfits
    show monitorPwritev (argsOf t.regs) env (w.atLeave t) = _
    rw [monitorPwritev, bind_apply, fetch_getMem hfits', Outcome.andThen_done, bind_apply]
    show (lindPwrite (cInt t.regs.rdi) (memBlock 0 t.mem t.regs.rsi (t.regs.rdx.toNat / 8 + 1))
      (cInt t.regs.rdx) t.regs.r10 env (w.atLeave t)).andThen _ = _
    rw [hrun]
    rfl
  obtain ⟨w', hdone, htracee, hsame⟩ := emulated_done (by decide) hflag hemulation
  exact ⟨w', restore, resp, hdone, by rw [hsame, hrequests]; rfl, by rw [hsame, hresp],
    by rw [htracee]⟩

/-- Where the elements of a vector lie, they are mapped. -/
theorem VectorAt.mapped {m : ByteMemory} {addr : Word} (h : VectorAt m addr pieces) {j : ℕ}
    (hj : j < pieces.length) : m.Mapped (wordAddr addr (j / 8 : ℕ)) := by
  intro k hk
  have hi : (8 * (j / 8) + k) / 16 < pieces.length := by omega
  obtain ⟨base, hbytes, -⟩ := h _ _ (List.getElem?_eq_getElem hi)
  have hlen : (iovecBytes base (pieces[(8 * (j / 8) + k) / 16]).length).length = 16 := by
    simp [iovecBytes]
  have hbyte := hbytes ((8 * (j / 8) + k) % 16) (by omega)
  rw [BitVec.add_assoc, ← BitVec.ofNat_add,
    show 16 * ((8 * (j / 8) + k) / 16) + (8 * (j / 8) + k) % 16 = 8 * (j / 8) + k by omega] at hbyte
  rw [wordAddr_natCast, BitVec.add_assoc, ← BitVec.ofNat_add, hbyte]
  rfl

theorem cInt_le_toNat (v : Word) : cInt v ≤ v.toNat := by
  rw [cInt, BitVec.toInt_setWidth, Int.bmod_def]
  split <;> omega

/-- What Python takes of the copy of a vector is what the tracee has there. -/
theorem takenBytes_eq_iff {m : ByteMemory} {addr count : Word} (hvec : VectorAt m addr pieces)
    (hlen : pieces.length = count.toNat) {bytes : List Byte} :
    takenBytes env (memBlock 0 m addr (count.toNat / 8 + 1)) (cInt count) = bytes ↔
      TakenFrom env m addr count bytes := by
  have hle := cInt_le_toNat count
  rw [takenBytes, TakenFrom]
  split
  · rename_i hnonneg
    have hsent := length_sentBytes env (memBlock 0 m addr (count.toNat / 8 + 1)) hnonneg
    have hbyte (j : ℕ) (hj : j < (cInt count).toNat) :
        (sentBytes env (memBlock 0 m addr (count.toNat / 8 + 1)) (cInt count))[j]? =
          m.byte (addr + BitVec.ofNat 64 j) := by
      rw [sentBytes, List.getElem?_map, List.getElem?_range hj, Option.map_some,
        byteAt_memBlock_eq _ _ _ _ (by omega), if_pos (hvec.mapped (by omega))]
    constructor
    · rintro rfl
      refine ⟨hsent, fun j hj ↦ ?_⟩
      rw [← hbyte j (by omega), List.getD_eq_getElem?_getD, List.getElem?_eq_getElem hj]
      rfl
    · rintro ⟨hcount, hbytes⟩
      refine List.ext_getElem? fun j ↦ ?_
      rcases Nat.lt_or_ge j bytes.length with hj | hj
      · rw [hbyte j (by omega), hbytes j hj, List.getD_eq_getElem?_getD,
          List.getElem?_eq_getElem hj]
        rfl
      · rw [List.getElem?_eq_none hj, List.getElem?_eq_none (by omega)]
  · exact eq_comm

/-- What is written is what Python took. -/
theorem PwritevGathers.taken (h : PwritevGathers env w t pieces) (hl : Answering env)
    (hflag : w.entering = false) (hfits : t.regs.rdx.toNat / 8 + 1 < 2 ^ 31) :
    cInt t.regs.r10 = t.regs.r10.toInt ∧ takenBytes env
      (memBlock 0 t.mem t.regs.rsi (t.regs.rdx.toNat / 8 + 1)) (cInt t.regs.rdx) =
        pieces.flatten := by
  obtain ⟨v, restore, resp, hrun, hrequests, -⟩ := h
  obtain ⟨w', restore', resp', hrun', hrequests', -⟩ := emulated_pwritev (t := t) hl hflag hfits
  rw [hrun'] at hrun
  cases hrun
  rw [hrequests'] at hrequests
  simp only [List.cons.injEq, writeRequest, seekRequest, Request.mk.injEq, PyVal.str.injEq,
    PyVal.int.injEq, true_and, and_true] at hrequests
  exact ⟨hrequests.2.2, hrequests.2.1⟩

/-- **Gathering.** `pwritev` writes the buffers of its vector exactly where the bytes of the vector
itself, as many as it has elements, are those of the buffers. -/
theorem pwritev_gathers_iff (hl : Answering env) (hflag : w.entering = false)
    (hvec : VectorAt t.mem t.regs.rsi pieces) (hlen : pieces.length = t.regs.rdx.toNat) :
    PwritevGathers env w t pieces ↔ OffsetKept t.regs.r10 ∧ t.regs.rdx.toNat / 8 + 1 < 2 ^ 31 ∧
      TakenFrom env t.mem t.regs.rsi t.regs.rdx pieces.flatten := by
  rw [OffsetKept, ← cInt_eq_toInt_iff, ← takenBytes_eq_iff hvec hlen]
  by_cases hfits : t.regs.rdx.toNat / 8 + 1 < 2 ^ 31
  · rw [and_iff_right hfits]
    constructor
    · exact fun h ↦ h.taken hl hflag hfits
    · rintro ⟨hoffset, htaken⟩
      obtain ⟨w', restore, resp, hrun, hrequests, hresp, hrax⟩ :=
        emulated_pwritev (t := t) hl hflag hfits
      exact ⟨w', restore, resp, hrun, by rw [hrequests, htaken, hoffset], hresp, hrax⟩
  · refine iff_of_false ?_ fun h ↦ hfits h.2.1
    rintro ⟨v, restore, resp, hrun, -⟩
    have hge : 2 ^ 31 ≤ (argsOf t.regs).arg3.toNat / 8 + 1 := not_lt.1 hfits
    have hhalt : monitorPwritev (argsOf t.regs) env (w.atLeave t) =
        .halt .intOverflow (w.atLeave t) := by
      rw [monitorPwritev, bind_apply, fetch_halt (getMem_of_le hge ..)]
      rfl
    rw [emulated_halt hflag hhalt] at hrun
    cases hrun

end Pwritev

/-- Lind answers everything with the position `0`. -/
theorem answering_steadyEnv :
    Answering (steadyEnv (some (successResponse 0 (positionBytes 0)))) := by
  refine fun _ _ ↦ ⟨_, rfl, ?_⟩
  rw [judge_successResponse (by norm_num) (by norm_num), Verdict.payload, length_positionBytes]
  norm_num

/-- A memory of zeros, but for a length of five in the second word. -/
def vectorMemory : ByteMemory := ⟨fun x ↦ some (if x = 8 then 5 else 0), fun _ ↦ true⟩

/-- `pwritev` on the first elements of the vector at `0`, which begins with five bytes at `0`. -/
def pwritevTracee (iovcnt : Word) : Tracee :=
  ⟨{ callRegs 296 with rdi := 3, rdx := iovcnt }, vectorMemory⟩

/-- A vector without elements. -/
theorem pwritev_gathers_iff_nil :
    let env := steadyEnv (some (successResponse 0 (positionBytes 0)))
    PwritevGathers env zeroWorld (pwritevTracee 0) [] ↔
      OffsetKept 0 ∧ (0 : Word).toNat / 8 + 1 < 2 ^ 31 ∧ TakenFrom env vectorMemory 0 0 [] :=
  pwritev_gathers_iff answering_steadyEnv rfl (fun i piece h ↦ by cases h) rfl

/-- One element: instead of its five bytes a single one is written. -/
theorem not_pwritev_gathers :
    VectorAt vectorMemory 0 [List.replicate 5 0] ∧
      ¬ PwritevGathers (steadyEnv (some (successResponse 0 (positionBytes 0)))) zeroWorld
        (pwritevTracee 1) [List.replicate 5 0] := by
  refine ⟨fun i piece hget ↦ ?_, fun h ↦ ?_⟩
  · obtain ⟨rfl, rfl⟩ : i = 0 ∧ List.replicate 5 0 = piece := by
      rw [List.getElem?_singleton] at hget
      split_ifs at hget with hi
      exact ⟨hi, Option.some.inj hget⟩
    exact ⟨0, by decide, by decide⟩
  · obtain ⟨-, htaken⟩ := h.taken answering_steadyEnv rfl (by decide)
    exact absurd (congrArg List.length htaken) (by decide)

end ReferenceMonitor
