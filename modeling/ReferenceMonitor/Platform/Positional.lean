import ReferenceMonitor.Platform.Encoding
import ReferenceMonitor.Platform.Files

/-!
# Reading and writing at an offset: `lind_pread`, `lind_pwrite`

Lind has no call that reads or writes at an offset. The wrappers make one out of four: ask for the
position, go to the offset, read or write there, and go back. None of the four results but that of
the transfer is looked at.

Where the `lseek`s are carried out the four make a transfer at the offset. Where one is rejected the
transfer takes place all the same, wherever the file happens to be.
-/

namespace ReferenceMonitor

open Halting

/-! ### Four calls -/

/-- What `lind_pread` and `lind_pwrite` share: the three calls of `lind_lseek` around `x`. -/
def positioned {α : Type} (fd : ℤ) (offset : Word) (x : M α) : M α := do
  let curPos ← lindLseek fd 0 1
  let _ ← lindLseek fd offset 0
  let ret ← x
  let _ ← lindLseek fd curPos 0
  return ret

theorem lindPread_eq_positioned (fd : ℤ) (buf : Block) (count : ℤ) (offset : Word) :
    lindPread fd buf count offset =
      positioned fd offset (lindCallInto (lindRead fd count) buf count) := rfl

theorem lindPwrite_eq_positioned (fd : ℤ) (buf : Block) (count : ℤ) (offset : Word) :
    lindPwrite fd buf count offset = positioned fd offset (do
      lindCall (← fetch (lindWrite fd (.block buf) count))) := by
  simp only [lindPwrite, positioned, bind_assoc]

/-- `x` asks `r` and returns `f` of the verdict on the answer, if that is as expected. -/
def Asks {α : Type} (env : Env) (x : M α) (r : Request) (expected : Verdict → Prop)
    (f : Verdict → α) : Prop :=
  ∀ w v, verdictOn env w r = some v → expected v → x env w = .done (f v) (w.answered r v)

section FourCalls

variable {D F : Type} [DecidableEq D] {S : FileServer D F} {env : Env} {s₀ s : FileState D F}
  {w : World} {fd : ℤ} {offset : Word}

/-- The position the last `lseek` goes to: the one the query finds, as an `int`, or `-1`. -/
def Restores (S : FileServer D F) (s : FileState D F) (fd p : ℤ) : Prop :=
  (∃ e, Rejects S.toServer s (queryRequest fd) e) ∧ p = -1 ∨
    ∃ d, s.fds fd = some d ∧ Moves S.toServer s (queryRequest fd) d (s.pos d) ∧
      p = wrapInt (s.pos d)

theorem exists_restores (s : FileState D F) (fd : ℤ) : ∃ p, Restores S s fd p := by
  rcases S.query s fd with h | ⟨d, hd, hm⟩
  · exact ⟨-1, .inl ⟨h, rfl⟩⟩
  · exact ⟨_, .inr ⟨d, hd, hm, rfl⟩⟩

/-- The query leaves the state alone. -/
theorem Restores.query {p : ℤ} (h : Restores S s fd p) :
    ∃ pos errno, SeekResult S.toServer s (queryRequest fd) pos errno ∧ cInt pos = p ∧
      (S.serve s (queryRequest fd)).1 = s := by
  rcases h with ⟨⟨e, h⟩, rfl⟩ | ⟨d, -, h, rfl⟩
  · refine ⟨_, _, .rejected h, rfl, ?_⟩
    obtain ⟨-, resp, hserve, -⟩ := h
    rw [hserve]
  · refine ⟨_, _, .moved h, cInt_ofInt _, ?_⟩
    obtain ⟨resp, code, hserve, -⟩ := h
    rw [hserve, FileState.moved_self]

theorem exists_seekResult (s : FileState D F) (fd offset : ℤ) :
    ∃ pos errno, SeekResult S.toServer s (seekRequest offset fd SEEK_SET) pos errno := by
  rcases S.seek s fd offset with ⟨e, h⟩ | ⟨d, -, h⟩
  · exact ⟨_, _, .rejected h⟩
  · exact ⟨_, _, .moved h⟩

/-- The four calls, one after the other. -/
theorem positioned_done {α : Type} {x : M α} {r : Request} {expected : Verdict → Prop}
    {f : Verdict → α} (hl : S.Answers s₀ env.lind) (hs : S.after s₀ w.requests = s)
    (hx : Asks env x r expected f) {p : ℤ} {pos pos' : Word} {errno errno' : ℤ}
    {s₁ s₂ s₃ : FileState D F} {resp : Response} (hquery : Restores S s fd p)
    (hseek : SeekResult S.toServer s (seekRequest (cInt offset) fd SEEK_SET) pos errno)
    (hs₁ : (S.serve s (seekRequest (cInt offset) fd SEEK_SET)).1 = s₁)
    (hserve : S.serve s₁ r = (s₂, some resp)) (hexpected : expected (judge resp))
    (hback : SeekResult S.toServer s₂ (seekRequest p fd SEEK_SET) pos' errno')
    (hs₃ : (S.serve s₂ (seekRequest p fd SEEK_SET)).1 = s₃) :
    ∃ w', positioned fd offset x env w = .done (f (judge resp)) w' ∧ w'.errno = errno' ∧
      S.after s₀ w'.requests = s₃ := by
  subst hs
  obtain ⟨cur, e, hcur, rfl, hstay⟩ := hquery.query
  have hfirst : ∃ w', lindLseek fd 0 SEEK_CUR env w = .done cur w' ∧ w'.errno = e ∧ _ :=
    lindLseek_done hl hcur
  obtain ⟨w₁, hrun₁, -, hafter₁⟩ := hfirst
  replace hafter₁ := hafter₁.trans hstay
  rw [← hafter₁] at hseek hs₁
  obtain ⟨w₂, hrun₂, -, hafter₂⟩ := lindLseek_done hl hseek
  replace hafter₂ := hafter₂.trans hs₁
  have hverdict : verdictOn env w₂ r = some (judge resp) := by
    rw [verdictOn_of_answers hl, hafter₂, hserve]
    rfl
  have hafter : S.after s₀ (w₂.answered r (judge resp)).requests = s₂ := by
    rw [after_answered, hafter₂, hserve]
  rw [← hafter] at hback hs₃
  obtain ⟨w₃, hrun₃, herrno, hafter₃⟩ := lindLseek_done hl hback
  refine ⟨w₃, ?_, herrno, hafter₃.trans hs₃⟩
  have hrun₁' : lindLseek fd 0 1 env w = .done cur w₁ := hrun₁
  have hrun₂' : lindLseek fd offset 0 env w₁ = .done pos w₂ := hrun₂
  have hrun₃' : lindLseek fd cur 0 env (w₂.answered r (judge resp)) = .done pos' w₃ := hrun₃
  rw [positioned, bind_apply, hrun₁', Outcome.andThen_done, bind_apply, hrun₂',
    Outcome.andThen_done, bind_apply, hx _ _ hverdict hexpected, Outcome.andThen_done, bind_apply,
    hrun₃']
  rfl

/-- `lind_read`, where the answer has no more than it asks for. -/
theorem asks_read {buf : Block} {count : ℤ} (hcount : 0 ≤ count) (hint : count < 2 ^ 31)
    (hroom : count ≤ buf.cells.length) :
    Asks env (lindCallInto (lindRead fd count) buf count) (lindRead fd count)
      (fun v ↦ ∀ code data, v = .success code data → (data.length : ℤ) ≤ count)
      fun v ↦ (v.status, (received env buf count v).getD buf) := by
  intro w v hverdict hexpected
  rw [lindCallInto_apply, hverdict]
  have hreceived : ∃ b, received env buf count v = some b := by
    cases v with
    | failed | error => exact ⟨buf, rfl⟩
    | success code data =>
      have hdata := hexpected code data rfl
      exact ⟨_, received_of_fits (fits_of_room (by omega) hcount (.inl hroom)) code⟩
  obtain ⟨b, hb⟩ := hreceived
  simp only [hb, Option.getD_some]

theorem lindWrite_block {buf : Block} {count : ℤ} (h : 0 ≤ count) (p : Env × ByteMemory)
    (log : List Word) : lindWrite fd (.block buf) count p log =
      .done (writeRequest fd (sentBytes p.1 buf count)) log := by
  simp only [lindWrite, pyBytes, bind_apply, ask_apply, Outcome.andThen_done, if_pos h]
  rfl

/-- `lind_write`. -/
theorem asks_write {buf : Block} {count : ℤ} (hcount : 0 ≤ count) :
    Asks env (do lindCall (← fetch (lindWrite fd (.block buf) count)))
      (writeRequest fd (sentBytes env buf count)) (fun _ ↦ True) Verdict.status := by
  intro w v hverdict _
  rw [bind_apply, fetch_done (lindWrite_block hcount (env, w.tracee.mem) [])]
  show lindCall (writeRequest fd (sentBytes env buf count)) env w = _
  rw [lindCall_apply, hverdict]

end FourCalls

/-! ### Transfers at an offset -/

/-- The bytes an answer brings. -/
def Verdict.payload : Verdict → List Byte
  | success _ data => data
  | _ => []

/-- The `lseek`s on an open file to positions that are `int`s are carried out. -/
structure FileServer.Seekable {D F : Type} [DecidableEq D] (S : FileServer D F) (d : D) :
    Prop where
  query : ∀ {s fd e}, s.fds fd = some d → ¬ Rejects S.toServer s (queryRequest fd) e
  seek : ∀ {s fd e} {offset : ℤ}, s.fds fd = some d → 0 ≤ offset → offset < 2 ^ 31 →
    ¬ Rejects S.toServer s (seekRequest offset fd SEEK_SET) e

theorem Moves.not_rejects {D F : Type} [DecidableEq D]
    {S : Server (FileState D F) Request (Option Response)} {s : FileState D F} {r : Request} {d : D}
    {p e : ℤ} (h : Moves S s r d p) : ¬ Rejects S s r e := by
  obtain ⟨resp, code, hserve, hjudge, -⟩ := h
  rintro ⟨-, resp', hserve', hjudge'⟩
  obtain rfl : resp = resp' := Option.some.inj (Prod.ext_iff.1 (hserve.symm.trans hserve')).2
  rw [hjudge] at hjudge'
  cases hjudge'

section Positional

variable {D F : Type} [DecidableEq D] {S : FileServer D F} {env : Env} {s₀ s : FileState D F}
  {w : World} {fd : ℤ} {offset : Word} {d : D}

theorem FileServer.Seekable.seekResult (h : S.Seekable d) (hfd : s.fds fd = some d) {p : ℤ}
    (hp : 0 ≤ p) (hp' : p < 2 ^ 31) :
    SeekResult S.toServer s (seekRequest p fd SEEK_SET) (ofInt p) 0 ∧
      (S.serve s (seekRequest p fd SEEK_SET)).1 = s.moved d p := by
  rcases S.seek s fd p with ⟨e, he⟩ | ⟨d', hd', hm⟩
  · exact absurd he (h.seek hfd hp hp')
  · obtain rfl : d = d' := Option.some.inj (hfd.symm.trans hd')
    refine ⟨.moved hm, ?_⟩
    obtain ⟨resp, code, hserve, -⟩ := hm
    rw [hserve]

theorem FileServer.Seekable.restores (h : S.Seekable d) (hfd : s.fds fd = some d) :
    Restores S s fd (wrapInt (s.pos d)) := by
  rcases S.query s fd with ⟨e, he⟩ | ⟨d', hd', hm⟩
  · exact absurd he (h.query hfd)
  · obtain rfl : d = d' := Option.some.inj (hfd.symm.trans hd')
    exact .inr ⟨d, hfd, hm, rfl⟩

/-- A transfer at the offset, and back to where the file was. -/
theorem positioned_at {α : Type} {x : M α} {r : Request} {expected : Verdict → Prop}
    {f : Verdict → α} {t : Transfer F} (hl : S.Answers s₀ env.lind)
    (hs : S.after s₀ w.requests = s) (hx : Asks env x r expected f) (hfd : s.fds fd = some d)
    (hseek : S.Seekable d) (hpos : 0 ≤ s.pos d) (hpos' : s.pos d < 2 ^ 31)
    (hoffset : offset.toNat < 2 ^ 31)
    (hserve : S.serve (s.moved d offset.toNat) r =
      ((s.moved d offset.toNat).transferred d t, some t.response))
    (hexpected : expected (judge t.response)) :
    ∃ w', positioned fd offset x env w = .done (f (judge t.response)) w' ∧
      S.after s₀ w'.requests = { s with files := t.files } := by
  have hcInt : cInt offset = offset.toNat := cInt_eq_toNat hoffset
  have hback : wrapInt (s.pos d) = s.pos d := wrapInt_eq_self (by omega) hpos'
  obtain ⟨hthere, hs₁⟩ := hseek.seekResult hfd (p := offset.toNat) (by omega) (by omega)
  obtain ⟨hreturn, hs₃⟩ := hseek.seekResult (s := (s.moved d offset.toNat).transferred d t) hfd
    hpos hpos'
  have hrestores := hseek.restores hfd
  rw [hback] at hrestores
  rw [FileState.transferred_moved] at hs₃
  rw [← hcInt] at hthere hs₁
  obtain ⟨w', hrun, -, hafter⟩ := positioned_done hl hs hx hrestores hthere hs₁ (hcInt ▸ hserve)
    hexpected hreturn hs₃
  exact ⟨w', hrun, hafter⟩

/-- The answer to `read` is as `lind_read` expects it. -/
theorem expected_readAt (f : F) (d : D) (p : ℤ) {count : ℤ} (h : 0 ≤ count) (h' : count < 2 ^ 31)
    (code : ℤ) (data : List Byte)
    (hv : judge (S.readAt f d p count).response = .success code data) :
    (data.length : ℤ) ≤ count := by
  rcases S.read_answer f d p h h' with ⟨e, -, he, -⟩ | ⟨data', hdata, hle⟩
  · rw [he] at hv
    cases hv
  · rw [hdata] at hv
    cases hv
    exact hle

/-- What a buffer holds after an answer that brings no more than it takes. -/
theorem byteAt_getD_received {buf : Block} {count : ℤ} (h : 0 ≤ count) (hint : count < 2 ^ 31)
    (hroom : count ≤ buf.cells.length) {v : Verdict}
    (hv : ∀ code data, v = .success code data → (data.length : ℤ) ≤ count) (k : ℕ) :
    ((received env buf count v).getD buf).byteAt env k =
      if k < v.payload.length then v.payload.getD k 0 else buf.byteAt env k := by
  cases v with
  | failed | error => rfl
  | success code data =>
    have hdata := hv code data rfl
    have hb : received env buf count (.success code data) = some _ :=
      received_of_fits (fits_of_room (by omega) h (.inl hroom)) code
    rw [hb, Option.getD_some, byteAt_received (by omega) hb]
    refine if_congr ?_ rfl rfl
    simp only [Verdict.payload]
    omega

/-- **Reading and writing at an offset.** On an open file whose `lseek`s are carried out,
`lind_pread` gives what reading at the offset gives, `lind_pwrite` what writing there gives, and no
position is changed. -/
theorem positional_io (hl : S.Answers s₀ env.lind) (hs : S.after s₀ w.requests = s)
    (hfd : s.fds fd = some d) (hseek : S.Seekable d) (hpos : 0 ≤ s.pos d)
    (hpos' : s.pos d < 2 ^ 31) (hoffset : offset.toNat < 2 ^ 31) {count : ℤ} (hcount : 0 ≤ count)
    (hcount' : count < 2 ^ 31) (buf : Block) :
    (count ≤ buf.cells.length →
      let t := S.readAt s.files d offset.toNat count
      let v := judge t.response
      ∃ buf' w', lindPread fd buf count offset env w = .done (v.status, buf') w' ∧
        (∀ k : ℕ, buf'.byteAt env k =
          if k < v.payload.length then v.payload.getD k 0 else buf.byteAt env k) ∧
        S.after s₀ w'.requests = { s with files := t.files }) ∧
      let t := S.writeAt s.files d offset.toNat (sentBytes env buf count)
      ∃ w', lindPwrite fd buf count offset env w = .done (judge t.response).status w' ∧
        S.after s₀ w'.requests = { s with files := t.files } := by
  have hfd' : (s.moved d offset.toNat).fds fd = some d := hfd
  refine ⟨fun hroom ↦ ?_, ?_⟩
  · have hexpected := expected_readAt (S := S) s.files d offset.toNat hcount hcount'
    have hserve := S.read hfd' hcount hcount'
    rw [FileState.pos_moved, FileState.files_moved] at hserve
    obtain ⟨w', hrun, hafter⟩ := positioned_at hl hs (asks_read hcount hcount' hroom) hfd hseek hpos
      hpos' hoffset hserve hexpected
    exact ⟨_, w', by rw [lindPread_eq_positioned, hrun],
      byteAt_getD_received hcount hcount' hroom hexpected, hafter⟩
  · have hsent := length_sentBytes env buf hcount
    have hserve := S.write hfd' (show (sentBytes env buf count).length < 2 ^ 31 by omega)
    rw [FileState.pos_moved, FileState.files_moved] at hserve
    obtain ⟨w', hrun, hafter⟩ := positioned_at hl hs (asks_write hcount) hfd hseek hpos hpos'
      hoffset hserve trivial
    exact ⟨w', by rw [lindPwrite_eq_positioned, hrun], hafter⟩

end Positional

/-! The single file. -/

/-- Lind is the machine with the single file. -/
def fileEnv (content : List Byte) (pos : ℤ) : Env :=
  { Env.blank with lind := fileServer.answerer (fileState content pos) none }

theorem answers_fileEnv (content : List Byte) (pos : ℤ) :
    fileServer.Answers (fileState content pos) (fileEnv content pos).lind :=
  fileServer.answers_answerer _ _

theorem seekable_fileServer (d : Unit) : fileServer.Seekable d where
  query {s fd e} hfd := by
    refine Moves.not_rejects (d := d) (p := s.pos d) (moves_successResponse ?_)
    exact (serveFile_open hfd).trans (serveOpen_query s d fd)
  seek {s fd e offset} hfd hoffset _ := by
    refine Moves.not_rejects (d := d) (p := offset) (moves_successResponse ?_)
    rw [show fileServer.serve s (seekRequest offset fd SEEK_SET) = _ from serveFile_open hfd,
      serveOpen_seek, if_neg (not_lt.2 hoffset)]

/-- On a file of five bytes, with its position behind the second: a short read at the third, and two
bytes written over the first. -/
theorem positional_io_fileEnv :
    let s := fileState [1, 2, 3, 4, 5] 2
    let env := fileEnv [1, 2, 3, 4, 5] 2
    (∃ buf' w', lindPread 3 (malloc 9 8) 8 3 env zeroWorld = .done (2, buf') w' ∧
      buf'.byteAt env 0 = 4 ∧ buf'.byteAt env 1 = 5 ∧ buf'.byteAt env 2 = 0 ∧
      fileServer.after s w'.requests = s) ∧
      ∃ w', lindPwrite 3 (malloc 9 8) 2 0 env zeroWorld = .done 2 w' ∧
        fileServer.after s w'.requests = fileState [0, 0, 3, 4, 5] 2 := by
  intro s env
  have hl : fileServer.Answers s env.lind := answers_fileEnv _ _
  have hafter : fileServer.after s zeroWorld.requests = s := rfl
  have hopen : s.fds 3 = some () := rfl
  have hpos : s.pos () < 2 ^ 31 := show (2 : ℤ) < 2 ^ 31 by norm_num
  have hio (offset : Word) (hoffset : offset.toNat < 2 ^ 31) {count : ℤ} (hcount : 0 ≤ count) :=
    positional_io hl hafter hopen (seekable_fileServer ()) (by decide) hpos hoffset hcount
  have hread := (hio 3 (by decide) (show (0 : ℤ) ≤ 8 by norm_num) (by norm_num) (malloc 9 8)).1
    (by decide)
  have hwrite := (hio 0 (by decide) (show (0 : ℤ) ≤ 2 by norm_num) (by norm_num) (malloc 9 8)).2
  obtain ⟨buf', w', hrun, hbytes, hread⟩ := hread
  obtain ⟨w'', hrun', hwrite⟩ := hwrite
  have hjudge : judge (readFile [1, 2, 3, 4, 5] () 3 8).response = .success 2 [4, 5] := by decide
  have hjudge' : judge (writeFile [1, 2, 3, 4, 5] () 0
    (sentBytes env (malloc 9 8) 2)).response = .success 2 [] := by decide
  change lindPread _ _ _ _ _ _ = .done ((judge (readFile [1, 2, 3, 4, 5] () 3 8).response).status,
    buf') w' at hrun
  change ∀ k : ℕ, buf'.byteAt env k =
    if k < (judge (readFile [1, 2, 3, 4, 5] () 3 8).response).payload.length
    then (judge (readFile [1, 2, 3, 4, 5] () 3 8).response).payload.getD k 0
    else (malloc 9 8).byteAt env k at hbytes
  rw [hjudge] at hrun hbytes
  change lindPwrite _ _ _ _ _ _ = .done (judge (writeFile [1, 2, 3, 4, 5] () 0
    (sentBytes env (malloc 9 8) 2)).response).status w'' at hrun'
  rw [hjudge'] at hrun'
  have h0 : buf'.byteAt env (0 : ℕ) = 4 := (hbytes 0).trans (by simp [Verdict.payload])
  have h1 : buf'.byteAt env (1 : ℕ) = 5 := (hbytes 1).trans (by simp [Verdict.payload])
  exact ⟨⟨buf', w', hrun, h0, h1, hbytes 2, hread⟩, w'', hrun', hwrite⟩

/-! ### Rejected seeks -/

section Refusal

variable {D F : Type} [DecidableEq D]

section

variable {S : FileServer D F} {env : Env} {s₀ s : FileState D F} {w : World} {fd : ℤ}
  {offset : Word}

/-- The error with which Lind rejects the query or the `lseek` to the offset. -/
def SeekError (S : FileServer D F) (s : FileState D F) (fd offset e : ℤ) : Prop :=
  Rejects S.toServer s (queryRequest fd) e ∨
    Rejects S.toServer s (seekRequest offset fd SEEK_SET) e

/-- `lind_pread` fails with that error, and nothing has changed. -/
def PreadRefused (S : FileServer D F) (s₀ : FileState D F) (env : Env) (w : World) (fd : ℤ)
    (buf : Block) (count : ℤ) (offset : Word) : Prop :=
  ∃ ret w', lindPread fd buf count offset env w = .done (ret, buf) w' ∧ ret < 0 ∧
    SeekError S (S.after s₀ w.requests) fd (cInt offset) w'.errno ∧
    S.after s₀ w'.requests = S.after s₀ w.requests

/-- So does `lind_pwrite`. -/
def PwriteRefused (S : FileServer D F) (s₀ : FileState D F) (env : Env) (w : World) (fd : ℤ)
    (buf : Block) (count : ℤ) (offset : Word) : Prop :=
  ∃ ret w', lindPwrite fd buf count offset env w = .done ret w' ∧ ret < 0 ∧
    SeekError S (S.after s₀ w.requests) fd (cInt offset) w'.errno ∧
    S.after s₀ w'.requests = S.after s₀ w.requests

/-- Lind rejects the transfer `r`, too, and the last `lseek` with an error of those before; and an
`lseek` to the offset that it carries out does not move. -/
structure Hopeless (S : FileServer D F) (s : FileState D F) (fd offset : ℤ) (r : Request) :
    Prop where
  still : ∀ d, Moves S.toServer s (seekRequest offset fd SEEK_SET) d offset → s.pos d = offset
  transfer : ∃ e, Rejects S.toServer s r e
  back : ∃ p e, Restores S s fd p ∧ SeekError S s fd offset e ∧
    Rejects S.toServer s (seekRequest p fd SEEK_SET) e

/-- An error number that is an answer's. -/
theorem SeekResult.rejects {S : Server (FileState D F) Request (Option Response)} {r : Request}
    {pos : Word} {errno : ℤ} (h : SeekResult S s r pos errno) (herrno : IsErrno errno) :
    Rejects S s r errno := by
  cases h with
  | rejected h => exact h
  | moved h =>
    obtain ⟨hpos, -⟩ := herrno
    omega

theorem SeekError.isErrno {o e : ℤ} (h : SeekError S s fd o e) : IsErrno e := by
  rcases h with h | h
  · exact h.1
  · exact h.1

/-- Failing with an error of a rejected `lseek`, and leaving everything as it was. -/
theorem positioned_refused_iff {α : Type} {x : M α} {r : Request} {expected : Verdict → Prop}
    {f : Verdict → α} (fails : α → Prop) (hl : S.Answers s₀ env.lind)
    (hs : S.after s₀ w.requests = s)
    (hx : Asks env x r expected f)
    (hr : ∀ s, (∃ e, Rejects S.toServer s r e) ∨ ∃ s' resp, S.serve s r = (s', some resp) ∧
      expected (judge resp) ∧ ¬ fails (f (judge resp)))
    (hfail : ∀ e, expected (.error e) ∧ fails (f (.error e))) :
    (∃ a w', positioned fd offset x env w = .done a w' ∧ fails a ∧
        SeekError S s fd (cInt offset) w'.errno ∧ S.after s₀ w'.requests = s) ↔
      Hopeless S s fd (cInt offset) r := by
  obtain ⟨pos, errno, hseek⟩ := exists_seekResult (S := S) s fd (cInt offset)
  constructor
  · rintro ⟨a, w', hrun, hfails, herror, hafter⟩
    obtain ⟨p, hp⟩ := exists_restores (S := S) s fd
    set s₁ := (S.serve s (seekRequest (cInt offset) fd SEEK_SET)).1 with hs₁
    rcases hr s₁ with ⟨e, hreject⟩ | ⟨s₂, resp, hserve, hexpected, hok⟩
    · -- the transfer is rejected, and so must the last `lseek` be
      obtain ⟨herrno, resp, hserve, hjudge⟩ := hreject
      obtain ⟨pos', errno', hback⟩ := exists_seekResult (S := S) s₁ fd p
      obtain ⟨w'', hrun', herrno', hafter'⟩ := positioned_done hl hs hx hp hseek hs₁.symm hserve
        (hjudge ▸ (hfail e).1) hback rfl
      rw [hrun'] at hrun
      cases hrun
      have hback' := hback.rejects (herrno' ▸ herror.isErrno)
      obtain ⟨-, resp', hserve', -⟩ := id hback'
      rw [hserve'] at hafter'
      have hstill : s₁ = s := hafter'.symm.trans hafter
      rw [hstill] at hserve hback'
      refine ⟨fun d hd ↦ ?_, ⟨e, herrno, resp, hserve, hjudge⟩, p, errno', hp,
        herrno' ▸ herror, hback'⟩
      obtain ⟨resp'', code, hmove, -⟩ := hd
      rw [hs₁, hmove] at hstill
      exact FileState.moved_eq_self_iff.1 hstill
    · obtain ⟨pos', errno', hback⟩ := exists_seekResult (S := S) s₂ fd p
      obtain ⟨w'', hrun', -⟩ := positioned_done hl hs hx hp hseek hs₁.symm hserve hexpected hback
        rfl
      rw [hrun'] at hrun
      cases hrun
      exact absurd hfails hok
  · rintro ⟨hstill, ⟨e, herrno, resp, hserve, hjudge⟩, p, e', hp, herror, hback⟩
    have hs₁ : (S.serve s (seekRequest (cInt offset) fd SEEK_SET)).1 = s := by
      rcases S.seek s fd (cInt offset) with ⟨e, -, resp, h, -⟩ | ⟨d, -, hm⟩
      · rw [h]
      · have hpos := hstill d hm
        obtain ⟨resp, code, h, -⟩ := hm
        rw [h]
        exact FileState.moved_eq_self_iff.2 hpos
    obtain ⟨w', hrun, herrno', hafter⟩ := positioned_done hl hs hx hp hseek hs₁ hserve
      (hjudge ▸ (hfail e).1) (.rejected hback) rfl
    obtain ⟨-, resp', hserve', -⟩ := hback
    rw [hserve'] at hafter
    exact ⟨_, w', hrun, hjudge ▸ (hfail e).2, herrno' ▸ herror, hafter⟩

end

section Transfers

variable {S : FileServer D F} {env : Env} {s₀ s : FileState D F} {w : World} {fd count : ℤ}
  {offset : Word}

/-- A failed transfer changes nothing. -/
theorem Transfer.Failed.rejects {t : Transfer F} {d : D} {r : Request}
    (h : t.Failed s.files (s.pos d))
    (hserve : S.serve s r = (s.transferred d t, some t.response)) :
    ∃ e, Rejects S.toServer s r e := by
  obtain ⟨e, herrno, hjudge, hfiles, hpos⟩ := h
  refine ⟨e, herrno, _, hserve.trans ?_, hjudge⟩
  rw [FileState.transferred, hfiles, hpos, FileState.moved_self]

/-- `read` is rejected, or is no failure. -/
theorem read_cases (buf : Block) (h : 0 ≤ count) (h' : count < 2 ^ 31) (s : FileState D F) :
    (∃ e, Rejects S.toServer s (lindRead fd count) e) ∨
      ∃ s' resp, S.serve s (lindRead fd count) = (s', some resp) ∧
        (∀ code data, judge resp = .success code data → (data.length : ℤ) ≤ count) ∧
        ¬ ((judge resp).status < 0 ∧
          (received env buf count (judge resp)).getD buf = buf) := by
  rcases hfd : s.fds fd with _ | d
  · exact .inl (S.read_closed hfd h h')
  · have hserve := S.read hfd h h'
    rcases S.read_answer s.files d (s.pos d) h h' with hfailed | ⟨data, hjudge, hle⟩
    · exact .inl (hfailed.rejects hserve)
    · refine .inr ⟨_, _, hserve, expected_readAt _ _ _ h h', fun hfails ↦ ?_⟩
      have hneg := hfails.1
      rw [hjudge, Verdict.status, wrapInt_eq_self (by omega) (by omega)] at hneg
      omega

/-- `write` is rejected, or is no failure. -/
theorem write_cases {bytes : List Byte} (h : bytes.length < 2 ^ 31) (s : FileState D F) :
    (∃ e, Rejects S.toServer s (writeRequest fd bytes) e) ∨
      ∃ s' resp, S.serve s (writeRequest fd bytes) = (s', some resp) ∧ True ∧
        ¬ (judge resp).status < 0 := by
  rcases hfd : s.fds fd with _ | d
  · exact .inl (S.write_closed hfd h)
  · have hserve := S.write hfd h
    rcases S.write_answer s.files d (s.pos d) h with hfailed | ⟨n, data, hjudge, hle⟩
    · exact .inl (hfailed.rejects hserve)
    · refine .inr ⟨_, _, hserve, trivial, ?_⟩
      rw [hjudge, Verdict.status, wrapInt_eq_self (by omega) (by omega)]
      omega

/-- **A rejected seek.** `lind_pread` and `lind_pwrite` fail with its error, and transfer nothing,
exactly where nothing that follows it could have succeeded, either. -/
theorem positional_refused_iff (hl : S.Answers s₀ env.lind) (hs : S.after s₀ w.requests = s)
    (hcount : 0 ≤ count) (hint : count < 2 ^ 31) {buf : Block} (hroom : count ≤ buf.cells.length) :
    (PreadRefused S s₀ env w fd buf count offset ↔
        Hopeless S s fd (cInt offset) (lindRead fd count)) ∧
      (PwriteRefused S s₀ env w fd buf count offset ↔
        Hopeless S s fd (cInt offset) (writeRequest fd (sentBytes env buf count))) := by
  have hsent := length_sentBytes env buf hcount
  refine ⟨?_, ?_⟩
  · have hfail (e : ℤ) : (∀ code data, Verdict.error e = .success code data →
        (data.length : ℤ) ≤ count) ∧ (-1 : ℤ) < 0 ∧ buf = buf :=
      ⟨fun _ _ h ↦ (nomatch h), by norm_num, rfl⟩
    rw [← positioned_refused_iff (fun a ↦ a.1 < 0 ∧ a.2 = buf) hl hs (asks_read hcount hint hroom)
      (read_cases buf hcount hint) hfail, ← lindPread_eq_positioned, PreadRefused, hs]
    constructor
    · rintro ⟨ret, w', hrun, hret, herror, hafter⟩
      exact ⟨_, w', hrun, ⟨hret, rfl⟩, herror, hafter⟩
    · rintro ⟨⟨ret, buf'⟩, w', hrun, ⟨hret, rfl⟩, herror, hafter⟩
      exact ⟨ret, w', hrun, hret, herror, hafter⟩
  · have hfail (_ : ℤ) : True ∧ (-1 : ℤ) < 0 := ⟨trivial, by norm_num⟩
    rw [← positioned_refused_iff (fun a : ℤ ↦ a < 0) hl hs (asks_write hcount)
      (write_cases (by omega)) hfail, ← lindPwrite_eq_positioned, PwriteRefused, hs]

end Transfers

end Refusal

/-- On a descriptor that stands for no file, nothing of the single-file machine succeeds. -/
theorem hopeless_closed {s : FileState Unit (List Byte)} {fd : ℤ} (h : s.fds fd = none)
    (offset : ℤ) {r : Request} (hr : requestFd r = fd) :
    Hopeless fileServer s fd offset r := by
  have hreject {r : Request} (hr : requestFd r = fd) : Rejects fileServer.toServer s r EBADF :=
    rejects_errorResponse (by decide) (serveFile_closed (hr ▸ h))
  exact
    { still := fun d hd ↦ absurd (hreject rfl) hd.not_rejects
      transfer := ⟨EBADF, hreject hr⟩
      back := ⟨-1, EBADF, .inl ⟨⟨EBADF, hreject rfl⟩, rfl⟩, .inl (hreject rfl), hreject rfl⟩ }

/-- Two bytes at `1` of descriptor `7`, which stands for no file. -/
theorem positional_refused_iff_closed :
    let s := fileState [1, 2, 3, 4, 5] 2
    let env := fileEnv [1, 2, 3, 4, 5] 2
    PreadRefused fileServer s env zeroWorld 7 (malloc 9 2) 2 1 ∧
      PwriteRefused fileServer s env zeroWorld 7 (malloc 9 2) 2 1 := by
  intro s env
  have hafter : fileServer.after s zeroWorld.requests = s := rfl
  have hroom : (2 : ℤ) ≤ (malloc 9 2).cells.length := by decide
  obtain ⟨hread, hwrite⟩ :
      (PreadRefused fileServer s env zeroWorld 7 (malloc 9 2) 2 1 ↔
        Hopeless fileServer s 7 (cInt 1) (lindRead 7 2)) ∧
      (PwriteRefused fileServer s env zeroWorld 7 (malloc 9 2) 2 1 ↔
        Hopeless fileServer s 7 (cInt 1) (writeRequest 7 (sentBytes env (malloc 9 2) 2))) :=
    positional_refused_iff (answers_fileEnv _ _) hafter (by norm_num) (by norm_num) hroom
  exact ⟨hread.2 (hopeless_closed rfl _ rfl), hwrite.2 (hopeless_closed rfl _ rfl)⟩

/-- The single file again, with its position behind the second of five bytes: writing two bytes at
`-1`, which `lseek` rejects, overwrites the third and the fourth. -/
theorem pwrite_not_refused :
    let s := fileState [1, 2, 3, 4, 5] 2
    let env := fileEnv [1, 2, 3, 4, 5] 2
    SeekError fileServer s 3 (cInt (-1)) EINVAL ∧
      (∃ w', lindPwrite 3 (malloc 9 2) 2 (-1) env zeroWorld = .done 2 w' ∧
        fileServer.after s w'.requests = fileState [1, 2, 0, 0, 5] 2) ∧
      ¬ PwriteRefused fileServer s env zeroWorld 3 (malloc 9 2) 2 (-1) := by
  intro s env
  have hl : fileServer.Answers s env.lind := answers_fileEnv _ _
  have hopen : s.fds 3 = some () := rfl
  have hreject : Rejects fileServer.toServer s (seekRequest (cInt (-1)) 3 SEEK_SET) EINVAL :=
    rejects_errorResponse (by decide) rfl
  have hrestores : Restores fileServer s 3 2 := (seekable_fileServer ()).restores hopen
  let t := writeFile s.files () (s.pos ()) (sentBytes env (malloc 9 2) 2)
  have hopen' : (s.transferred () t).fds 3 = some () := rfl
  obtain ⟨hback, hs₃⟩ := (seekable_fileServer ()).seekResult hopen' (show (0 : ℤ) ≤ 2 by norm_num)
    (by norm_num)
  have hx : Asks env _ (writeRequest 3 (sentBytes env (malloc 9 2) 2)) _ _ :=
    asks_write (show (0 : ℤ) ≤ 2 by decide)
  have hserve : fileServer.serve s (writeRequest 3 (sentBytes env (malloc 9 2) 2)) =
      (s.transferred () t, some t.response) := rfl
  obtain ⟨w', hrun, -, hafter⟩ := positioned_done hl (show fileServer.after s zeroWorld.requests = s
    from rfl) hx hrestores (.rejected hreject) rfl hserve trivial hback hs₃
  have hjudge : judge t.response = .success 2 [] := by decide
  rw [hjudge, ← lindPwrite_eq_positioned] at hrun
  refine ⟨.inr hreject, ⟨w', hrun, hafter⟩, ?_⟩
  rintro ⟨ret, w'', hrun', hret, -⟩
  rw [hrun] at hrun'
  cases hrun'
  exact absurd hret (by decide)

end ReferenceMonitor
