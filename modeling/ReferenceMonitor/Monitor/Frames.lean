import ReferenceMonitor.Monitor.Intercept

/-!
# What the handlers leave alone

Between two stops the emulations change little: they read the tracee, talk to Lind and add to the
descriptor table. A relation that allows these few things (`Permits`) is kept by every emulation; it
is composed once along their bodies, so that a relation gets it from the building blocks. `Frame` is
the relation that says what stays: the registers and the memory of the tracee are the business of
`finish` alone.
-/

namespace ReferenceMonitor

open Halting

/-- The events that mark a phase: a branch taken, and a write to the tracee. -/
def Event.marks : Event → Bool
  | branch _ _ => true
  | setMem _ _ => true
  | _ => false

/-- The marks in a trace, newest first. -/
def World.marks (w : World) : List Event := w.trace.filter Event.marks

/-- What an emulation keeps: the tracee, the flag, the marks, and `regs`; where `p` holds, all of
`regs` but for `arg3`. -/
structure Frame (p : Prop) (w w' : World) : Prop where
  regs : w'.regs = { w.regs with arg3 := w'.regs.arg3 }
  arg3 : p ∨ w'.regs.arg3 = w.regs.arg3
  entering : w'.entering = w.entering
  tracee : w'.tracee = w.tracee
  marks : w'.marks = w.marks

namespace Frame

variable {p : Prop}

theorem refl (w : World) : Frame p w w := ⟨rfl, .inr rfl, rfl, rfl, rfl⟩

theorem trans {w₁ w₂ w₃ : World} (h : Frame p w₁ w₂) (h' : Frame p w₂ w₃) : Frame p w₁ w₃ where
  regs := by rw [h'.regs, h.regs]
  arg3 := by
    rcases h.arg3 with hp | h3
    · exact .inl hp
    · exact h'.arg3.imp_right fun h3' ↦ h3'.trans h3
  entering := h'.entering.trans h.entering
  tracee := h'.tracee.trans h.tracee
  marks := h'.marks.trans h.marks

/-- Only the trace has changed, or the bookkeeping beside it. -/
theorem of_eq {w w' : World} (hregs : w'.regs = w.regs) (hentering : w'.entering = w.entering)
    (htracee : w'.tracee = w.tracee) (hmarks : w'.marks = w.marks) : Frame p w w' :=
  ⟨by rw [hregs], .inr (by rw [hregs]), hentering, htracee, hmarks⟩

theorem regs_eq {w w' : World} (h : Frame p w w') (hp : ¬ p) : w'.regs = w.regs := by
  rw [h.regs, h.arg3.resolve_left hp]

end Frame

instance (p : Prop) : Std.Refl (Frame p) := ⟨Frame.refl⟩

instance (p : Prop) : IsTrans World (Frame p) := ⟨fun _ _ _ ↦ Frame.trans⟩

/-! ### What an emulation is built from -/

/-- The relation allows what the emulations do besides entering descriptors. -/
structure Permits (R : World → World → Prop) : Prop where
  read : ∀ {α : Type} (q : Fetch α), Keeps R (fetch q)
  send : ∀ r, Keeps R (makeLindSysCall r)
  setErrno : ∀ v, Keeps R (setErrno v)

namespace Permits

variable {R : World → World → Prop} [Std.Refl R] [IsTrans World R]

theorem parseResponse (h : Permits R) (response : Option Response) (num : ℕ) (varg : List Dest) :
    Keeps R (parseResponse response num varg) := by
  unfold ReferenceMonitor.parseResponse
  split
  · exact keeps_stop _
  · split
    · exact keeps_pure _
    · exact (h.setErrno _).bind fun _ ↦ keeps_pure _
    · exact (h.setErrno _).bind fun _ ↦ (h.read _).bind fun _ ↦ keeps_pure _

theorem lindCall (h : Permits R) (r : Request) : Keeps R (lindCall r) :=
  (h.send r).bind fun _ ↦ (h.parseResponse _ _ _).bind fun _ ↦ keeps_pure _

theorem lindCallInto (h : Permits R) (r : Request) (b : Block) (maxlen : ℤ) :
    Keeps R (lindCallInto r b maxlen) :=
  (h.send r).bind fun _ ↦ (h.parseResponse _ _ _).bind fun _ ↦ keeps_pure _

theorem lindLseek (h : Permits R) (fd : ℤ) (offset : Word) (whence : ℤ) :
    Keeps R (lindLseek fd offset whence) :=
  (h.lindCallInto _ _ _).bind fun _ ↦ Keeps.ite (keeps_pure _) (keeps_ask.bind fun _ ↦ keeps_pure _)

theorem monitorPread64 (h : Permits R) (r : SyscallArgs) : Keeps R (monitorPread64 r) :=
  (h.read _).bind fun _ ↦
    ((h.lindLseek _ _ _).bind fun _ ↦ (h.lindLseek _ _ _).bind fun _ ↦
      (h.lindCallInto _ _ _).bind fun _ ↦ (h.lindLseek _ _ _).bind fun _ ↦
        keeps_pure _).bind fun _ ↦ keeps_pure _

theorem monitorPwritev (h : Permits R) (r : SyscallArgs) : Keeps R (monitorPwritev r) :=
  (h.read _).bind fun _ ↦
    ((h.lindLseek _ _ _).bind fun _ ↦ (h.lindLseek _ _ _).bind fun _ ↦
      (h.read _).bind fun _ ↦ (h.lindCall _).bind fun _ ↦
        (h.lindLseek _ _ _).bind fun _ ↦ keeps_pure _).bind fun _ ↦ keeps_pure _

theorem status (h : Permits R) (q : Fetch Request) : Keeps R (status q) :=
  (h.read q).bind fun _ ↦ (h.lindCall _).bind fun _ ↦ keeps_pure _

theorem fillWith (h : Permits R) (size : ℕ) (dst count : Word)
    (q : Block → Fetch (Request × ℤ)) : Keeps R (fillWith size dst count q) :=
  (h.read _).bind fun _ ↦ (h.lindCallInto _ _ _).bind fun _ ↦ keeps_pure _

theorem fill (h : Permits R) (o : Output) (q : Block → Fetch Request) : Keeps R (fill o q) :=
  h.fillWith _ _ _ _

theorem enterDescriptor (henter : ∀ src dest, Keeps R (addMapping src dest)) (r : SyscallArgs)
    (otherwise : Option (Word × List CopyBack)) (fd : ℤ) :
    Keeps R (enterDescriptor r otherwise fd) :=
  Keeps.ite ((henter _ _).bind fun _ ↦ keeps_pure _) (keeps_pure _)

theorem descriptor (h : Permits R) (henter : ∀ src dest, Keeps R (addMapping src dest))
    (q : SyscallArgs → Fetch Request) (r : SyscallArgs) : Keeps R (descriptor q r) :=
  (h.read _).bind fun _ ↦ (h.lindCall _).bind fun _ ↦ enterDescriptor henter _ _ _

/-- Every emulation keeps the relation; `monitor_getsockname` keeps a pointer of the monitor in
`regs.arg3`. -/
theorem emulation (h : Permits R) (henter : ∀ src dest, Keeps R (addMapping src dest))
    {c : LindCall} (h3 : c = .getsockname → ∀ v w, R w { w with regs.arg3 := v })
    (r : SyscallArgs) : Keeps R (c.emulation r) := by
  cases c with
  | getuid | getpid | geteuid | getgid | getegid | rmdir | unlink | link | mkdir | chdir | fcntl
  | flock | listen | shutdown | write | bind | connect | sendto | setsockopt | sendmsg =>
    exact h.status _
  | openat | access | dup | dup2 | dup3 | epoll_create1 | epoll_create | socket | accept =>
    rw [LindCall.emulation]
    exact h.descriptor henter _ _
  | read | getdents | fstat | stat | statfs | fstatfs | poll | epoll_wait =>
    rw [LindCall.emulation]
    exact h.fill _ _
  | getsockopt =>
    rw [LindCall.emulation]
    exact h.fillWith _ _ _ _
  | getsockname =>
    exact (h.read _).bind fun _ ↦ keeps_ask.bind fun env ↦
      (keeps_modify fun w ↦ h3 rfl (env.heapAddr _) w).bind fun _ ↦ h.fillWith _ _ _ _
  | «open» =>
    exact (h.read _).bind fun _ ↦ (h.lindCall _).bind fun _ ↦ enterDescriptor henter _ _ _
  | socketpair =>
    exact (h.read _).bind fun _ ↦ (h.lindCallInto _ _ _).bind fun _ ↦ enterDescriptor henter _ _ _
  | close => exact (h.status _).ite (keeps_pure _)
  | getcwd => exact (h.read _).bind fun _ ↦ keeps_pure _
  | getpeername => exact keeps_pure _
  | lseek => exact (h.lindLseek _ _ _).bind fun _ ↦ keeps_pure _
  | pread64 => exact h.monitorPread64 r
  | pwritev => exact h.monitorPwritev r
  | epoll_ctl => exact (h.read _).bind fun _ ↦ (h.lindCall _).bind fun _ ↦ keeps_pure _
  | recvfrom =>
    exact ((h.send _).bind fun _ ↦ (h.parseResponse _ _ _).bind fun _ ↦
      keeps_pure _).bind fun _ ↦ keeps_pure _
  | recvmsg =>
    exact (h.read _).bind fun _ ↦ (h.read _).bind fun _ ↦
      (h.lindCall _).bind fun _ ↦ keeps_ask.bind fun _ ↦ keeps_pure _
  | select =>
    exact (h.read _).bind fun _ ↦ (h.read _).bind fun _ ↦ (h.read _).bind fun _ ↦
      (h.read _).bind fun _ ↦
        (keeps_ask.bind fun _ ↦ (h.lindCallInto _ _ _).bind fun _ ↦
          Keeps.ite (keeps_pure _) (keeps_pure _)).bind fun _ ↦ keeps_pure _

end Permits

/-! ### The frame of an emulation -/

variable {p : Prop}

theorem permits_frame : Permits (Frame p) where
  read q := keeps_focus q fun log w ↦ .of_eq rfl rfl rfl (by
    simp [World.marks, List.filter_append, List.filter_eq_nil_iff, Event.marks])
  send _ := (keeps_modify fun _ ↦ .of_eq rfl rfl rfl rfl).bind fun _ ↦
    keeps_ask.bind fun _ ↦ keeps_get.bind fun _ ↦ keeps_pure _
  setErrno _ := keeps_modify fun _ ↦ .of_eq rfl rfl rfl rfl

theorem frame_addMapping (src dest : ℤ) : Keeps (Frame p) (addMapping src dest) :=
  (keeps_pure _).ite (keeps_modify fun _ ↦ .of_eq rfl rfl rfl rfl)

theorem frame_monitorNs (r : SyscallArgs) : Keeps (Frame p) (monitorNs r) :=
  Keeps.bind (keeps_modify fun w ↦ .of_eq rfl rfl rfl (by simp [World.marks, Event.marks])) fun _ ↦
    keeps_pure _

theorem frame_emulation (c : LindCall) (r : SyscallArgs) :
    Keeps (Frame (c = .getsockname)) (c.emulation r) :=
  permits_frame.emulation frame_addMapping (fun h _ _ ↦ ⟨rfl, .inl h, rfl, rfl, rfl⟩) r

theorem frame_emulationOf (n : ℤ) (r : SyscallArgs) :
    Keeps (Frame (n = LindCall.getsockname.nr)) (emulationOf n r) := by
  unfold emulationOf
  cases hc : LindCall.ofNr n with
  | some c =>
    refine (frame_emulation c r).mono fun w w' h ↦ { h with arg3 := h.arg3.imp_left ?_ }
    intro hg
    rw [← LindCall.nr_of_ofNr hc, hg]
  | none => exact frame_monitorNs r

end ReferenceMonitor
