import Mathlib.Logic.Function.Basic
import ReferenceMonitor.Library.Servers
import ReferenceMonitor.Machine.SetMem
import ReferenceMonitor.Platform.Wrappers

/-!
# The files of Lind

Lind is a parameter, a `FileServer`: a machine over `FileState` whose `lseek`, `read` and `write` do
what is documented of them. Positions belong to open files, which several descriptors may stand for.
`fileServer` is one such machine, with a single file.
-/

namespace ReferenceMonitor

open Halting

/-! ### Files -/

/-- What the file calls act on: what each descriptor stands for, the position of every open file,
and everything else. -/
structure FileState (D F : Type) where
  fds : ℤ → Option D
  pos : D → ℤ
  files : F

/-- Reading or writing at a position: the answer, and what there is afterwards. -/
structure Transfer (F : Type) where
  response : Response
  files : F
  pos : ℤ

namespace FileState

variable {D F : Type} [DecidableEq D]

/-- The position of an open file is changed. -/
def moved (s : FileState D F) (d : D) (p : ℤ) : FileState D F :=
  { s with pos := Function.update s.pos d p }

/-- So are the files. -/
def transferred (s : FileState D F) (d : D) (t : Transfer F) : FileState D F :=
  { s.moved d t.pos with files := t.files }

@[simp] theorem fds_moved (s : FileState D F) (d : D) (p : ℤ) : (s.moved d p).fds = s.fds := rfl

@[simp] theorem files_moved (s : FileState D F) (d : D) (p : ℤ) :
    (s.moved d p).files = s.files := rfl

@[simp] theorem pos_moved (s : FileState D F) (d : D) (p : ℤ) : (s.moved d p).pos d = p :=
  Function.update_self ..

@[simp] theorem moved_self (s : FileState D F) (d : D) : s.moved d (s.pos d) = s := by
  rw [moved, Function.update_eq_self]

@[simp] theorem moved_moved (s : FileState D F) (d : D) (p q : ℤ) :
    (s.moved d p).moved d q = s.moved d q := by
  rw [moved, moved, Function.update_idem]
  rfl

theorem moved_eq_self_iff {s : FileState D F} {d : D} {p : ℤ} : s.moved d p = s ↔ s.pos d = p := by
  constructor
  · intro h
    rw [← h, pos_moved]
  · rintro rfl
    exact moved_self s d

/-- Back to an old position. -/
theorem transferred_moved (s : FileState D F) (d : D) (p : ℤ) (t : Transfer F) :
    ((s.moved d p).transferred d t).moved d (s.pos d) = { s with files := t.files } := by
  simp only [transferred, moved, Function.update_idem, Function.update_eq_self]

end FileState

/-! ### The file calls of Lind -/

/-- `SEEK_SET`. -/
def SEEK_SET : ℤ := 0

/-- `SEEK_CUR`. -/
def SEEK_CUR : ℤ := 1

/-- The request of `lind_lseek`. -/
def seekRequest (offset fd whence : ℤ) : Request :=
  ⟨LIND_safe_fs_lseek, [.int offset, .int fd, .int whence]⟩

/-- The request for the position. -/
def queryRequest (fd : ℤ) : Request := seekRequest 0 fd SEEK_CUR

/-- The request of `lind_write`. -/
def writeRequest (fd : ℤ) (bytes : List Byte) : Request :=
  ⟨LIND_safe_fs_write, [.int fd, .str bytes]⟩

/-- A position as `lseek` answers with it: its eight bytes. -/
def positionBytes (p : ℤ) : List Byte := (List.range 8).map (byteOf (ofInt p))

/-- An error number. -/
def IsErrno (e : ℤ) : Prop := 1 ≤ e ∧ e ≤ 4095

instance (e : ℤ) : Decidable (IsErrno e) := inferInstanceAs (Decidable (_ ∧ _))

section Calls

variable {D F : Type} [DecidableEq D]

/-- The request is rejected, and nothing changes. -/
def Rejects (S : Server (FileState D F) Request (Option Response)) (s : FileState D F)
    (r : Request) (e : ℤ) : Prop :=
  IsErrno e ∧ ∃ resp, S.serve s r = (s, some resp) ∧ judge resp = .error e

/-- The request moves to a position, and is answered with it. -/
def Moves (S : Server (FileState D F) Request (Option Response)) (s : FileState D F) (r : Request)
    (d : D) (p : ℤ) : Prop :=
  ∃ resp code, S.serve s r = (s.moved d p, some resp) ∧
    judge resp = .success code (positionBytes p) ∧ 0 ≤ wrapInt code

/-- A transfer that has failed and changed nothing. -/
def Transfer.Failed (t : Transfer F) (files : F) (p : ℤ) : Prop :=
  ∃ e, IsErrno e ∧ judge t.response = .error e ∧ t.files = files ∧ t.pos = p

variable (D F) in
/-- Lind, as far as its `lseek`, `read` and `write` go, with what is documented of them. Reading and
writing are functions of the files, the open file and the position. -/
structure FileServer extends Server (FileState D F) Request (Option Response) where
  readAt : F → D → (p count : ℤ) → Transfer F
  writeAt : F → D → (p : ℤ) → List Byte → Transfer F
  query : ∀ s fd, (∃ e, Rejects toServer s (queryRequest fd) e) ∨
    ∃ d, s.fds fd = some d ∧ Moves toServer s (queryRequest fd) d (s.pos d)
  seek : ∀ s fd offset, (∃ e, Rejects toServer s (seekRequest offset fd SEEK_SET) e) ∨
    ∃ d, s.fds fd = some d ∧ Moves toServer s (seekRequest offset fd SEEK_SET) d offset
  read : ∀ {s fd d} {count : ℤ}, s.fds fd = some d → 0 ≤ count → count < 2 ^ 31 →
    serve s (lindRead fd count) =
      (s.transferred d (readAt s.files d (s.pos d) count),
        some (readAt s.files d (s.pos d) count).response)
  read_closed : ∀ {s fd} {count : ℤ}, s.fds fd = none → 0 ≤ count → count < 2 ^ 31 →
    ∃ e, Rejects toServer s (lindRead fd count) e
  read_answer : ∀ f d p {count : ℤ}, 0 ≤ count → count < 2 ^ 31 →
    (readAt f d p count).Failed f p ∨
      ∃ data : List Byte, judge (readAt f d p count).response = .success data.length data ∧
        data.length ≤ count
  write : ∀ {s fd d bytes}, s.fds fd = some d → bytes.length < 2 ^ 31 →
    serve s (writeRequest fd bytes) =
      (s.transferred d (writeAt s.files d (s.pos d) bytes),
        some (writeAt s.files d (s.pos d) bytes).response)
  write_closed : ∀ {s fd bytes}, s.fds fd = none → bytes.length < 2 ^ 31 →
    ∃ e, Rejects toServer s (writeRequest fd bytes) e
  write_answer : ∀ f d p {bytes : List Byte}, bytes.length < 2 ^ 31 →
    (writeAt f d p bytes).Failed f p ∨
      ∃ (n : ℕ) (data : List Byte), judge (writeAt f d p bytes).response = .success n data ∧
        n ≤ bytes.length

end Calls

/-! ### One call -/

section OneCall

variable {D F : Type} [DecidableEq D] {S : FileServer D F} {env : Env} {s₀ : FileState D F}
  {w : World}

theorem verdictOn_of_answers (hl : S.Answers s₀ env.lind) (r : Request) :
    verdictOn env w r = (S.serve (S.after s₀ w.requests) r).2.map judge := by
  rw [verdictOn, hl]

theorem after_answered (r : Request) (v : Verdict) :
    S.after s₀ (w.answered r v).requests = (S.serve (S.after s₀ w.requests) r).1 := by
  rw [requests_answered, Server.after_cons]

theorem IsErrno.wrapInt_eq {e : ℤ} (h : IsErrno e) : wrapInt e = e := by
  obtain ⟨h1, h2⟩ := h
  exact wrapInt_eq_self (by omega) (by omega)

theorem length_positionBytes (p : ℤ) : (positionBytes p).length = 8 := by simp [positionBytes]

/-- The local variable of `lind_lseek` after an answer with a position. -/
theorem received_position (env : Env) (code p : ℤ) :
    ∃ b, received env (malloc 4 8) 8 (.success code (positionBytes p)) = some b ∧
      b.wordAt env 0 = ofInt p := by
  have hlen := length_positionBytes p
  have hfits : Fits (malloc 4 8).cells.length 8 (positionBytes p) :=
    fits_of_room (by omega) (by decide) (.inl (by simp))
  have hreceived : received env (malloc 4 8) 8 (.success code (positionBytes p)) = some _ :=
    received_of_fits hfits code
  refine ⟨_, hreceived, word_ext fun j hj ↦ ?_⟩
  have hbyte := byteAt_received (by omega) hreceived j
  rw [if_pos (by omega)] at hbyte
  rw [byteOf_wordAt _ _ _ hj, zero_add, hbyte, positionBytes, List.getD_eq_getElem?_getD,
    List.getElem?_map, List.getElem?_range hj]
  rfl

/-- What `lind_lseek` makes of the answer: the value it returns, and `errno`. -/
inductive SeekResult (S : Server (FileState D F) Request (Option Response)) (s : FileState D F)
    (r : Request) : Word → ℤ → Prop
  | rejected {e : ℤ} : Rejects S s r e → SeekResult S s r (ofInt (-1)) e
  | moved {d : D} {p : ℤ} : Moves S s r d p → SeekResult S s r (ofInt p) 0

theorem lindLseek_done (hl : S.Answers s₀ env.lind) {fd whence : ℤ} {offset pos : Word} {errno : ℤ}
    (h : SeekResult S.toServer (S.after s₀ w.requests) (seekRequest (cInt offset) fd whence) pos
      errno) :
    ∃ w', lindLseek fd offset whence env w = .done pos w' ∧ w'.errno = errno ∧
      S.after s₀ w'.requests =
        (S.serve (S.after s₀ w.requests) (seekRequest (cInt offset) fd whence)).1 := by
  have hverdict := verdictOn_of_answers (w := w) hl (seekRequest (cInt offset) fd whence)
  rw [lindLseek, ← seekRequest, bind_apply, lindCallInto_apply, hverdict]
  cases h with
  | rejected h =>
    obtain ⟨herrno, resp, hserve, hjudge⟩ := h
    refine ⟨w.answered (seekRequest (cInt offset) fd whence) (.error errno), ?_, herrno.wrapInt_eq,
      after_answered ..⟩
    rw [hserve]
    simp only [Option.map_some, hjudge]
    rfl
  | @moved d p h =>
    obtain ⟨resp, code, hserve, hjudge, hcode⟩ := h
    obtain ⟨b, hb, hword⟩ := received_position env code p
    refine ⟨w.answered (seekRequest (cInt offset) fd whence) (.success code (positionBytes p)), ?_,
      rfl, after_answered ..⟩
    rw [hserve]
    simp only [Option.map_some, hjudge, hb, Verdict.status, Outcome.andThen_done, ite_run,
      if_neg (not_lt.2 hcode)]
    rw [← hword]
    rfl

end OneCall

/-! ### One file -/

section OneFile

/-- The single file in its first state: descriptors `3` and `4` stand for it. -/
def fileState (content : List Byte) (pos : ℤ) : FileState Unit (List Byte) :=
  ⟨fun fd ↦ if fd = 3 ∨ fd = 4 then some () else none, fun _ ↦ pos, content⟩

/-- Reading the file: never past its end. -/
def readFile (f : List Byte) (_ : Unit) (p count : ℤ) : Transfer (List Byte) :=
  let data := (f.drop p.toNat).take count.toNat
  ⟨successResponse data.length data, f, p + data.length⟩

/-- Writing the file: a gap before the bytes is filled with zeros. -/
def writeFile (f : List Byte) (_ : Unit) (p : ℤ) (bytes : List Byte) : Transfer (List Byte) :=
  ⟨successResponse bytes.length [],
    f.take p.toNat ++ List.replicate (p.toNat - f.length) 0 ++ bytes ++
      f.drop (p.toNat + bytes.length),
    p + bytes.length⟩

/-- `EBADF`. -/
def EBADF : ℤ := 9

/-- `EINVAL`. -/
def EINVAL : ℤ := 22

/-- What the machine with the single file does with a request on the open file `d`. -/
def serveOpen (s : FileState Unit (List Byte)) (d : Unit) (r : Request) :
    FileState Unit (List Byte) × Option Response :=
  match r.args with
  | [.int offset, .int _, .int whence] =>
    let p := if whence = SEEK_CUR then s.pos d + offset else offset
    if whence = SEEK_SET ∧ p < 0 then (s, some (errorResponse EINVAL))
    else (s.moved d p, some (successResponse 0 (positionBytes p)))
  | [.int _, .int count] =>
    let t := readFile s.files d (s.pos d) count
    (s.transferred d t, some t.response)
  | [.int _, .str bytes] =>
    let t := writeFile s.files d (s.pos d) bytes
    (s.transferred d t, some t.response)
  | _ => (s, none)

/-- The descriptor of a request. -/
def requestFd (r : Request) : ℤ :=
  match r.args with
  | [.int _, .int fd, .int _] => fd
  | .int fd :: _ => fd
  | _ => -1

/-- The machine with the single file. -/
def serveFile (s : FileState Unit (List Byte)) (r : Request) :
    FileState Unit (List Byte) × Option Response :=
  match s.fds (requestFd r) with
  | some d => serveOpen s d r
  | none => (s, some (errorResponse EBADF))

theorem rejects_errorResponse {S : Server (FileState Unit (List Byte)) Request (Option Response)}
    {s : FileState Unit (List Byte)} {r : Request} {e : ℤ} (he : IsErrno e)
    (h : S.serve s r = (s, some (errorResponse e))) : Rejects S s r e := by
  obtain ⟨h1, h2⟩ := id he
  exact ⟨he, _, h, judge_errorResponse (by omega) (by omega)⟩

theorem moves_successResponse {S : Server (FileState Unit (List Byte)) Request (Option Response)}
    {s : FileState Unit (List Byte)} {r : Request} {d : Unit} {p : ℤ}
    (h : S.serve s r = (s.moved d p, some (successResponse 0 (positionBytes p)))) :
    Moves S s r d p :=
  ⟨_, 0, h, judge_successResponse (by omega) (by omega) _, by decide⟩

theorem serveFile_closed {s : FileState Unit (List Byte)} {r : Request}
    (h : s.fds (requestFd r) = none) : serveFile s r = (s, some (errorResponse EBADF)) := by
  rw [serveFile, h]

theorem serveFile_open {s : FileState Unit (List Byte)} {r : Request} {d : Unit}
    (h : s.fds (requestFd r) = some d) : serveFile s r = serveOpen s d r := by
  rw [serveFile, h]

/-- An `lseek` on the file. -/
theorem serveOpen_seek (s : FileState Unit (List Byte)) (d : Unit) (offset fd : ℤ) :
    serveOpen s d (seekRequest offset fd SEEK_SET) =
      if offset < 0 then (s, some (errorResponse EINVAL))
      else (s.moved d offset, some (successResponse 0 (positionBytes offset))) := by
  simp [serveOpen, seekRequest, SEEK_SET, SEEK_CUR]

/-- The query for its position. -/
theorem serveOpen_query (s : FileState Unit (List Byte)) (d : Unit) (fd : ℤ) :
    serveOpen s d (queryRequest fd) =
      (s.moved d (s.pos d), some (successResponse 0 (positionBytes (s.pos d)))) := by
  simp [serveOpen, queryRequest, seekRequest, SEEK_SET, SEEK_CUR]

/-- The machine with the single file does what is documented. -/
def fileServer : FileServer Unit (List Byte) where
  serve := serveFile
  readAt := readFile
  writeAt := writeFile
  query s fd := by
    rcases hfd : s.fds fd with _ | d
    · exact .inl ⟨EBADF, rejects_errorResponse (by decide) (serveFile_closed hfd)⟩
    · exact .inr ⟨d, rfl, moves_successResponse ((serveFile_open hfd).trans (serveOpen_query ..))⟩
  seek s fd offset := by
    rcases hfd : s.fds fd with _ | d
    · exact .inl ⟨EBADF, rejects_errorResponse (by decide) (serveFile_closed hfd)⟩
    · have hserve := (serveFile_open (r := seekRequest offset fd SEEK_SET) hfd).trans
        (serveOpen_seek s d offset fd)
      by_cases h : offset < 0
      · exact .inl ⟨EINVAL, rejects_errorResponse (by decide) (hserve.trans (if_pos h))⟩
      · exact .inr ⟨d, rfl, moves_successResponse (hserve.trans (if_neg h))⟩
  read h _ _ := serveFile_open h
  read_closed h _ _ := ⟨EBADF, rejects_errorResponse (by decide) (serveFile_closed h)⟩
  read_answer f d p count hcount hint := by
    have hle : (((f.drop p.toNat).take count.toNat).length : ℤ) ≤ count := by
      have := List.length_take_le count.toNat (f.drop p.toNat)
      omega
    exact .inr ⟨_, judge_successResponse (by omega) (by omega) _, hle⟩
  write h _ := serveFile_open h
  write_closed h _ := ⟨EBADF, rejects_errorResponse (by decide) (serveFile_closed h)⟩
  write_answer f d p bytes h :=
    .inr ⟨bytes.length, [], judge_successResponse (by omega) (by omega) _, le_refl _⟩

end OneFile

end ReferenceMonitor
