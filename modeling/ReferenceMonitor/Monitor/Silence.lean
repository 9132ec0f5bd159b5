import ReferenceMonitor.Monitor.Handlers

/-!
# Reading code that keeps to the right address space

The trace of a run records every access, in the monitor's own address space, to an address that came
from the tracee. Reading code that records none is `Silent`. The pointers it loads through are all
the monitor's own (`Ptr.IsOwn`), or values that are no pointers at all.
-/

namespace ReferenceMonitor

open Halting

/-- The events of an access to an address of the tracee in the monitor's address space. -/
def Event.isForeign : Event → Bool
  | foreign _ => true
  | _ => false

/-- These accesses in a trace, newest first. -/
def World.foreigns (w : World) : List Event := w.trace.filter Event.isForeign

/-- The log is as it was. -/
abbrev Silent {α : Type} (q : Fetch α) : Prop := Keeps Eq q

theorem silent_getPath (addr : Word) : Silent (getPath addr) := by
  refine keeps_ask.bind fun ⟨_, _⟩ ↦ ?_
  dsimp only
  split
  · exact keeps_pure _
  · exact keeps_stop _

theorem silent_getMem (number : ℕ) (addr count : Word) : Silent (getMem number addr count) :=
  keeps_ask.bind fun _ ↦ (keeps_stop _).ite (keeps_pure _)

theorem silent_loadOwn (a : Word) (n : ℕ) : Silent (loadOwn a n) := by
  refine keeps_ask.bind fun ⟨_, _⟩ ↦ ?_
  dsimp only
  split
  · exact keeps_pure _
  · exact keeps_stop _

theorem silent_stringOwn (a : Word) : Silent (stringOwn a) := by
  refine keeps_ask.bind fun ⟨_, _⟩ ↦ ?_
  dsimp only
  split
  · exact keeps_pure _
  · exact keeps_stop _

/-- A pointer that is no address of the tracee. -/
def Ptr.IsOwn : Ptr → Prop
  | foreign _ => False
  | _ => True

theorem silent_pyBytes {p : Ptr} (h : p.IsOwn) (n : ℤ) : Silent (pyBytes p n) := by
  refine keeps_ask.bind fun _ ↦ ?_
  cases p with
  | block b => exact (keeps_pure _).ite (keeps_pure _)
  | foreign a => exact h.elim
  | stray a =>
    exact (keeps_pure _).ite (((silent_loadOwn _ _).bind fun _ ↦ keeps_pure _).ite
      ((silent_stringOwn _).bind fun _ ↦ keeps_pure _))

theorem silent_lindFcntl (fd cmd : ℤ) : Silent (lindFcntl fd cmd) :=
  keeps_ask.bind fun _ ↦ (keeps_pure _).ite
    (((silent_pyBytes (p := .stray _) trivial _).bind fun _ ↦ keeps_pure _).ite (keeps_pure _))

theorem silent_lindSendto (sockfd : ℤ) (buf destAddr : Block) (len addrlen : ℤ) :
    Silent (lindSendto sockfd (.block buf) len (.block destAddr) addrlen) :=
  (silent_pyBytes (p := .block _) trivial _).bind fun _ ↦
    (silent_pyBytes (p := .block _) trivial _).bind fun _ ↦ keeps_pure _

theorem silent_derefSocklen (b : Block) : Silent (derefSocklen (.block b)) :=
  keeps_ask.bind fun _ ↦ keeps_pure _

theorem silent_concatLoop (iov : Block) (size known rounds i : ℕ) (final : ℤ) :
    Silent (concatLoop iov size known rounds i final) := by
  induction rounds generalizing i final with
  | zero => exact keeps_pure _
  | succ rounds ih =>
    refine keeps_ask.bind fun _ ↦ (ih _ _).ite (Keeps.ite ?_ ?_)
    · exact (ih _ _).ite (keeps_stop _)
    · exact (silent_loadOwn _ _).bind fun _ ↦ (ih _ _).ite (keeps_stop _)

theorem silent_packIov (iov : Block) (iovlen : Word) : Silent (packIov iov iovlen) := by
  refine keeps_ask.bind fun _ ↦ (keeps_stop _).ite ?_
  split
  · exact keeps_stop _
  · exact (silent_concatLoop _ _ _ _ _ _).bind fun _ ↦ keeps_pure _

theorem silent_msgRequest (num : ℕ) (sockfd : ℤ) (msg : MsgHdr) (flags : ℤ) :
    Silent (msgRequest num sockfd msg flags) :=
  keeps_ask.bind fun _ ↦ (silent_packIov _ _).bind fun _ ↦
    (silent_pyBytes (p := .block _) trivial _).bind fun _ ↦
      (silent_pyBytes (p := .stray _) trivial _).bind fun _ ↦ keeps_pure _

theorem silent_handOn (v : MsgView) : Silent (handOn v) :=
  keeps_ask.bind fun _ ↦ ((keeps_stop _).ite (keeps_pure _)).bind fun _ ↦ keeps_pure _

theorem silent_fetchData (v : MsgView) (n : ℕ) : Silent (fetchData v n) := by
  induction n with
  | zero => exact keeps_pure _
  | succ n ih =>
    exact ih.bind fun _ ↦ keeps_ask.bind fun _ ↦ (silent_getMem _ _ _).bind fun _ ↦ keeps_pure _

theorem silent_argvCount (argv : Word) (fuel i : ℕ) : Silent (argvCount argv fuel i) := by
  induction fuel generalizing i with
  | zero => exact keeps_stop _
  | succ fuel ih =>
    exact keeps_ask.bind fun _ ↦ (silent_getMem _ _ _).bind fun _ ↦ (keeps_pure _).ite (ih _)

theorem silent_argvPaths (argv : Word) (n : ℕ) : Silent (argvPaths argv n) := by
  induction n with
  | zero => exact keeps_pure _
  | succ n ih =>
    exact ih.bind fun _ ↦ keeps_ask.bind fun _ ↦ (silent_getMem _ _ _).bind fun _ ↦
      (keeps_pure _).ite ((silent_getPath _).bind fun _ ↦ keeps_pure _)

end ReferenceMonitor
