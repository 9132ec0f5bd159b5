import Mathlib.Data.List.TakeWhile
import ReferenceMonitor.Library.Logs
import ReferenceMonitor.Platform.Wrappers

/-!
# What Lind may expect of a request

A `Form` is what the receiver of a request knows of it before it looks at the tracee: the number
of the call and, for each element of the list, its kind. An integer is a C `int`, and a given one
where it is an argument of the call. A path has no zero byte. A buffer has the number of bytes that
is sent with it.

`Yields` lemmas say that the wrappers which load their arguments build such requests.
-/

namespace ReferenceMonitor

open Halting

/-- The kinds of elements of a request. -/
inductive Arg where
  /-- This `int`. -/
  | int (i : ℤ)
  /-- Some `int`. -/
  | anyInt
  /-- A string without a zero byte. -/
  | path
  /-- `s#` for a pointer to an object of the monitor: so many bytes, or a C string where the length
  is negative. -/
  | bytes (length : ℤ)
  /-- A string. -/
  | string
  /-- `None`, or a value of this kind: `s#` for a pointer that may be null. -/
  | orNone (a : Arg)

/-- The values an `int` takes. -/
def IsInt (i : ℤ) : Prop := -2 ^ 31 ≤ i ∧ i < 2 ^ 31

theorem isInt_cInt (w : Word) : IsInt (cInt w) :=
  ⟨BitVec.le_toInt (w.setWidth 32), BitVec.toInt_lt (x := w.setWidth 32)⟩

/-- A value of this kind. -/
def Arg.Admits : Arg → PyVal → Prop
  | int i, v => v = .int i ∧ IsInt i
  | anyInt, v => ∃ i, v = .int i ∧ IsInt i
  | path, v => ∃ s, v = .str s ∧ 0 ∉ s
  | bytes n, v => ∃ s, v = .str s ∧ if 0 ≤ n then s.length = n else 0 ∉ s
  | string, v => ∃ s, v = .str s
  | orNone a, v => v = .none ∨ a.Admits v

theorem admits_cInt (w : Word) : (Arg.int (cInt w)).Admits (.int (cInt w)) := ⟨rfl, isInt_cInt w⟩

theorem admits_anyInt (w : Word) : Arg.anyInt.Admits (.int (cInt w)) := ⟨_, rfl, isInt_cInt w⟩

/-- The form of a request. -/
structure Form where
  num : ℕ
  args : List Arg

/-- A request of this form. -/
def Form.Admits (form : Form) (r : Request) : Prop :=
  r.num = form.num ∧ List.Forall₂ Arg.Admits form.args r.args

/-! ### Arguments that are loaded -/

theorem zero_notMem_takeWhile (l : List Byte) : 0 ∉ l.takeWhile (· ≠ 0) :=
  fun h ↦ by simpa using List.mem_takeWhile_imp h

theorem yields_getPath (addr : Word) :
    Yields (fun s ↦ Arg.path.Admits (.str s)) (getPath addr) := by
  refine yields_bind fun ⟨_, m⟩ ↦ ?_
  dsimp only
  split
  · exact yields_pure ⟨_, rfl, zero_notMem_takeWhile _⟩
  · exact yields_stop _

theorem length_of_mapM {α β : Type} {f : α → Option β} {l : List α} {bs : List β}
    (h : l.mapM f = some bs) : bs.length = l.length := by
  induction l generalizing bs with
  | nil =>
    cases h
    rfl
  | cons a l ih =>
    rw [List.mapM_cons] at h
    obtain ⟨b, -, h⟩ := Option.bind_eq_some_iff.1 h
    obtain ⟨bs', hbs', h⟩ := Option.bind_eq_some_iff.1 h
    cases h
    rw [List.length_cons, List.length_cons, ih hbs']

theorem yields_loadOwn (a : Word) (n : ℕ) : Yields (fun bs ↦ bs.length = n) (loadOwn a n) := by
  refine yields_bind fun ⟨env, _⟩ ↦ ?_
  dsimp only
  split
  · exact yields_pure ((length_of_mapM ‹_›).trans List.length_range)
  · exact yields_stop _

/-- `s#` for an object of the monitor. -/
theorem yields_pyBytes_block (b : Block) (n : ℤ) :
    Yields (Arg.bytes n).Admits (pyBytes (.block b) n) := by
  refine yields_bind fun ⟨env, _⟩ ↦ ?_
  dsimp only
  split
  · refine yields_pure ⟨_, rfl, ?_⟩
    rw [if_pos ‹_›, List.length_map, List.length_range]
    omega
  · refine yields_pure ⟨_, rfl, ?_⟩
    rw [if_neg ‹_›]
    exact zero_notMem_takeWhile _

theorem yields_pyBytes_block_string (b : Block) (n : ℤ) :
    Yields Arg.string.Admits (pyBytes (.block b) n) := by
  intro r s v t hdone
  obtain ⟨bs, rfl, -⟩ := yields_pyBytes_block b n hdone
  exact ⟨bs, rfl⟩

/-- `s#` for an address of the monitor that came from elsewhere. -/
theorem yields_pyBytes_stray (a : Word) (n : ℕ) :
    Yields (Arg.orNone (.bytes n)).Admits (pyBytes (.stray a) n) := by
  have hn : (0 : ℤ) ≤ n := Int.natCast_nonneg n
  refine yields_bind fun ⟨env, _⟩ ↦ ?_
  dsimp only
  rw [if_pos hn]
  refine (yields_pure (.inl rfl)).ite ((yields_loadOwn a n).bind fun bs hbs ↦ ?_)
  refine yields_pure (.inr ⟨bs, rfl, ?_⟩)
  rw [if_pos hn, hbs]

theorem yields_pyBytes_stray_string (a : Word) (n : ℤ) :
    Yields (Arg.orNone .string).Admits (pyBytes (.stray a) n) := by
  refine yields_bind fun ⟨env, _⟩ ↦ ?_
  dsimp only
  exact (yields_pure (.inl rfl)).ite ((yields_bind fun bs ↦ yields_pure (.inr ⟨bs, rfl⟩)).ite
    (yields_bind fun bs ↦ yields_pure (.inr ⟨bs, rfl⟩)))

/-! ### Requests that are built from loads -/

theorem yields_lindWrite (fd : Word) (b : Block) (count : ℤ) :
    Yields (Form.Admits ⟨LIND_safe_fs_write, [.int (cInt fd), .bytes count]⟩)
      (lindWrite (cInt fd) (.block b) count) :=
  (yields_pyBytes_block b count).bind fun _ h ↦
    yields_pure ⟨rfl, .cons (admits_cInt fd) (.cons h .nil)⟩

/-- The request of `lind_fcntl`: with what `va_arg` found, where the command takes an argument. -/
def fcntlForm (fd cmd : ℤ) : Form :=
  ⟨LIND_safe_fs_fcntl, .int fd :: .int cmd ::
    if cmd = 0 then [.anyInt] else if cmd = 6 then [.orNone (.bytes sizeofFlock)] else []⟩

theorem yields_lindFcntl (fd cmd : Word) :
    Yields (fcntlForm (cInt fd) (cInt cmd)).Admits (lindFcntl (cInt fd) (cInt cmd)) := by
  have hboth {rest : List Arg} {vs : List PyVal} (h : List.Forall₂ Arg.Admits rest vs) :
      List.Forall₂ Arg.Admits (.int (cInt fd) :: .int (cInt cmd) :: rest)
        (.int (cInt fd) :: .int (cInt cmd) :: vs) :=
    .cons (admits_cInt fd) (.cons (admits_cInt cmd) h)
  refine yields_bind fun ⟨env, _⟩ ↦ ?_
  dsimp only
  unfold fcntlForm
  split
  · exact yields_pure ⟨rfl, hboth (.cons (admits_anyInt _) .nil)⟩
  split
  · exact (yields_pyBytes_stray _ _).bind fun v h ↦ yields_pure ⟨rfl, hboth (.cons h .nil)⟩
  · exact yields_pure ⟨rfl, hboth .nil⟩

theorem yields_lindBind (fd : Word) (addr : Block) (len : Word) :
    Yields (Form.Admits ⟨LIND_safe_net_bind,
        [.int (cInt fd), .int (cInt len), .bytes (cInt len)]⟩)
      (lindBind (cInt fd) (.block addr) (cInt len)) :=
  (yields_pyBytes_block addr _).bind fun _ h ↦
    yields_pure ⟨rfl, .cons (admits_cInt fd) (.cons (admits_cInt len) (.cons h .nil))⟩

theorem yields_lindConnect (fd : Word) (addr : Block) (len : Word) :
    Yields (Form.Admits ⟨LIND_safe_net_connect,
        [.int (cInt fd), .int (cInt len), .bytes (cInt len)]⟩)
      (lindConnect (cInt fd) (.block addr) (cInt len)) :=
  (yields_pyBytes_block addr _).bind fun _ h ↦
    yields_pure ⟨rfl, .cons (admits_cInt fd) (.cons (admits_cInt len) (.cons h .nil))⟩

theorem yields_lindSendto (fd : Word) (data : Block) (len : Word) (addr : Block)
    (addrlen : Word) :
    Yields (Form.Admits ⟨LIND_safe_net_sendto, [.int (cInt fd), .int (cInt len),
        .int (cInt addrlen), .bytes (cInt addrlen), .bytes (cInt len)]⟩)
      (lindSendto (cInt fd) (.block data) (cInt len) (.block addr) (cInt addrlen)) :=
  (yields_pyBytes_block addr _).bind fun _ haddr ↦
    (yields_pyBytes_block data _).bind fun _ hdata ↦
      yields_pure ⟨rfl, .cons (admits_cInt fd) (.cons (admits_cInt len)
        (.cons (admits_cInt addrlen) (.cons haddr (.cons hdata .nil))))⟩

theorem yields_lindSetsockopt (fd level name : Word) (val : Block) (len : Word) :
    Yields (Form.Admits ⟨LIND_safe_net_setsockopt, [.int (cInt fd), .int (cInt level),
        .int (cInt name), .bytes (cInt len), .int (cInt len)]⟩)
      (lindSetsockopt (cInt fd) (cInt level) (cInt name) (.block val) (cInt len)) :=
  (yields_pyBytes_block val _).bind fun _ h ↦
    yields_pure ⟨rfl, .cons (admits_cInt fd) (.cons (admits_cInt level)
      (.cons (admits_cInt name) (.cons h (.cons (admits_cInt len) .nil))))⟩

theorem yields_lindAccept (fd : Word) (addr : Block) (addrlen : Ptr) :
    Yields (Form.Admits ⟨LIND_safe_net_accept, [.int (cInt fd), .string]⟩)
      (lindAccept (cInt fd) (.block addr) addrlen) :=
  yields_bind fun _ ↦ (yields_pyBytes_block_string addr _).bind fun _ h ↦
    yields_pure ⟨rfl, .cons (admits_cInt fd) (.cons h .nil)⟩

theorem yields_derefSocklen (p : Ptr) : Yields IsInt (derefSocklen p) := by
  cases p with
  | block b => exact yields_bind fun ⟨env, _⟩ ↦ yields_pure (isInt_cInt _)
  | foreign a => exact yields_bind fun bytes ↦ yields_pure (isInt_cInt _)
  | stray a => exact yields_bind fun bytes ↦ yields_pure (isInt_cInt _)

theorem yields_lindGetsockname (fd : Word) (addrlen : Ptr) :
    Yields (fun p ↦ Form.Admits ⟨LIND_safe_net_getsockname, [.int (cInt fd), .anyInt]⟩ p.1)
      (lindGetsockname (cInt fd) addrlen) :=
  (yields_derefSocklen addrlen).bind fun n h ↦
    yields_pure ⟨rfl, .cons (admits_cInt fd) (.cons ⟨n, rfl, h⟩ .nil)⟩

theorem yields_lindGetsockopt (fd level name : Word) (optlen : Ptr) :
    Yields (fun p ↦ Form.Admits
        ⟨LIND_safe_net_getsockopt, [.int (cInt fd), .int (cInt level), .int (cInt name)]⟩ p.1)
      (lindGetsockopt (cInt fd) (cInt level) (cInt name) optlen) :=
  yields_bind fun _ ↦
    yields_pure ⟨rfl, .cons (admits_cInt fd) (.cons (admits_cInt level)
      (.cons (admits_cInt name) .nil))⟩

theorem yields_lindPoll (fds : Block) (nfds timeout : Word) :
    Yields (Form.Admits ⟨LIND_safe_net_poll, [.int (cInt nfds), .int (cInt timeout),
        .bytes (cInt (BitVec.ofNat 64 sizeofPollfd * nfds))]⟩)
      (lindPoll (.block fds) nfds (cInt timeout)) :=
  (yields_pyBytes_block fds _).bind fun _ h ↦
    yields_pure ⟨rfl, .cons (admits_cInt nfds) (.cons (admits_cInt timeout) (.cons h .nil))⟩

theorem yields_lindEpollCtl (epfd op fd : Word) (event : Block) :
    Yields (Form.Admits ⟨LIND_safe_net_epoll_ctl,
        [.int (cInt epfd), .int (cInt op), .int (cInt fd), .bytes sizeofEpollEvent]⟩)
      (lindEpollCtl (cInt epfd) (cInt op) (cInt fd) (.block event)) :=
  (yields_pyBytes_block event _).bind fun _ h ↦
    yields_pure ⟨rfl, .cons (admits_cInt epfd) (.cons (admits_cInt op)
      (.cons (admits_cInt fd) (.cons h .nil)))⟩

/-- The request of `lind_sendmsg` and `lind_recvmsg`: in the place of the control data an address,
and in that of its length a string. -/
def msgForm (num : ℕ) (fd flags : ℤ) : Form :=
  ⟨num, [.int fd, .string, .string, .anyInt, .orNone .string, .int flags, .anyInt]⟩

theorem yields_msgRequest (num : ℕ) (fd flags : Word) (msg : MsgHdr) :
    Yields (msgForm num (cInt fd) (cInt flags)).Admits
      (msgRequest num (cInt fd) msg (cInt flags)) := by
  refine yields_bind fun ⟨env, _⟩ ↦ yields_bind fun final ↦
    (yields_pyBytes_block_string _ _).bind fun name hname ↦
      (yields_pyBytes_stray_string _ _).bind fun control hcontrol ↦ yields_pure ⟨rfl, ?_⟩
  refine .cons (admits_cInt fd) (.cons hname (.cons ?_ (.cons (admits_anyInt _)
    (.cons hcontrol (.cons (admits_cInt flags) (.cons (admits_anyInt _) .nil))))))
  split
  · exact ⟨_, rfl⟩
  · exact ⟨_, rfl⟩

end ReferenceMonitor
