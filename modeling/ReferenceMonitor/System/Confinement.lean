import ReferenceMonitor.Monitor.Copies
import ReferenceMonitor.Monitor.ReadBack
import ReferenceMonitor.System.Leaving

/-!
# What the monitor may write in the tracee's memory

The monitor writes in the memory of its tracee at one kind of stop only, the exit stop of an
emulated call, and there only in words of the buffers that this call names: `LindCall.outputs` lists
them, from the registers, and for `recvmsg` from the header in memory, before Lind has answered.
Whatever Lind answers, and however the emulation ends, every other byte is as the tracee left it,
and no address is mapped or unmapped (`confined_run`).
-/

namespace ReferenceMonitor

open Halting

/-- A buffer of the tracee: its address and its size. -/
abbrev Buffer := Word × Word

/-- The buffers a call names for its results. -/
def LindCall.outputs (env : Env) (m : ByteMemory) (r : SyscallArgs) : LindCall → List Buffer
  | epoll_ctl => [(r.arg4, BitVec.ofNat 64 sizeofEpollEvent)]
  | select =>
    let fdSet := BitVec.ofNat 64 sizeofFdSet
    [(r.arg2, fdSet), (r.arg3, fdSet), (r.arg4, fdSet), (r.arg5, BitVec.ofNat 64 sizeofTimeval)]
  | recvfrom => [(r.arg2, r.arg3), (r.arg5, r.arg6)]
  | recvmsg => (recvmsgBacks env (msgView env m r)).map fun b ↦ (b.dst, b.count)
  | c =>
    match c.output env m r with
    | some o => [(o.dst, o.count)]
    | none => []

/-- The address lies in a word of one of the buffers, and the tracee may write there itself. -/
def InBuffers (m : ByteMemory) (bs : List Buffer) (x : Word) : Prop :=
  ∃ b ∈ bs, ∃ a ∈ copyWords b.1 b.2, m.Pokeable a ∧ InWord a x

section Emulation

variable {env : Env} {m : ByteMemory} {r : SyscallArgs} {c : LindCall} {v : Verdict} {res : Result}

/-- The ranges of a call do not depend on Lind's answer. -/
theorem copies_eq_outputs (c : LindCall) :
    (c.copies env m r v).map (fun f ↦ (f.dst, f.count)) = c.outputs env m r := by
  cases c with
  | recvmsg => rw [LindCall.copies, LindCall.outputs, List.map_map]; rfl
  | _ => rfl

/-- What a reply copies back goes to the buffers of the call. -/
theorem backs_of_reply (h : c.reply env m r v = some res) :
    (backsOf res).map (fun b ↦ (b.dst, b.count)) = c.outputs env m r := by
  rw [← copies_eq_outputs (v := v)]
  have hdescribes := describes_of_reply h
  rw [List.forall₂_map_left_iff] at hdescribes
  refine List.forall₂_eq_eq_eq ▸ List.forall₂_map_left_iff.2 (List.forall₂_map_right_iff.2 ?_)
  exact hdescribes.imp fun b f hbf ↦ by rw [hbf.1, hbf.2.1]; rfl

/-- The calls that position the file copy nothing back. -/
theorem yields_positioned (h : c.own = 3) :
    Yields (fun res ↦ backsOf res = []) (c.emulation r) := by
  cases c with
  | pread64 => exact yields_bind fun _ ↦ yields_bind fun _ ↦ yields_pure rfl
  | pwritev => exact yields_bind fun _ ↦ yields_bind fun _ ↦ yields_pure rfl
  | _ => cases h

/-- Whatever an emulation returns, its copies go to the buffers of the call. -/
theorem backs_of_emulation {w u : World} (h : c.emulation r env w = .done res u) :
    (backsOf res).map (fun b ↦ (b.dst, b.count)) = [] ∨
      (backsOf res).map (fun b ↦ (b.dst, b.count)) = c.outputs env w.tracee.mem r := by
  rcases own_cases c with hown | hown
  · have hex := exchange_emulation hown r env w
    rw [h] at hex
    cases hex with
    | idle => exact .inl rfl
    | replied _ _ hreply => exact .inr (backs_of_reply hreply)
  · rw [yields_positioned hown h]
    exact .inl rfl

/-- Copies change bytes of their buffers only. -/
theorem inBuffers_of_byte_ne {bs : List CopyBack} {x : Word}
    (h : (copyMem env m bs).byte x ≠ m.byte x) :
    InBuffers m (bs.map fun b ↦ (b.dst, b.count)) x := by
  rw [copyMem_eq_pokeAll] at h
  have htouched := not_not.1 (mt ByteMemory.byte_pokeAll_of_not_touched h)
  obtain ⟨w, hw, hpoke, hin⟩ := htouched
  obtain ⟨q, hq, rfl⟩ := List.mem_map.1 hw
  have haddr : q.addr ∈ (slots m (bs.map CopyBack.range)).map Slot.addr :=
    List.mem_map_of_mem hq
  rw [addr_slots, List.flatMap_map] at haddr
  obtain ⟨b, hb, ha⟩ := List.mem_flatMap.1 haddr
  exact ⟨_, List.mem_map_of_mem hb, q.addr, ha, hpoke, hin⟩

end Emulation

/-! ### Rounds -/

/-- The tracee's memory is as it was. -/
structure SameMem (w w' : World) : Prop where
  mem : w'.tracee.mem = w.tracee.mem

instance : Std.Refl SameMem := ⟨fun _ ↦ ⟨rfl⟩⟩

instance : IsTrans World SameMem := ⟨fun _ _ _ h h' ↦ ⟨h'.mem.trans h.mem⟩⟩

theorem tolerates_sameMem : Tolerates SameMem where
  branch _ _ := keeps_modify fun _ ↦ ⟨rfl⟩
  read _ := keeps_focus _ fun _ _ ↦ ⟨rfl⟩
  setEntering _ := keeps_modify fun _ ↦ ⟨rfl⟩
  setRetval _ := keeps_modify fun _ ↦ ⟨rfl⟩
  setArgs := keeps_modify fun _ ↦ ⟨rfl⟩

section Round

variable {acts : Actions} {s t : Sys} {rep : Report}

/-- Away from the exit stops of emulated calls the memory stays as it is. -/
theorem mem_round_of_not_leaving (hflag : FlagFits acts s) (hlegal : Legal s rep)
    (h : ¬ (rep.stop = .exit ∧ choice acts rep.tracee.regs.orig_rax = .lind)) :
    (s.round acts rep).state.tracee.mem = rep.tracee.mem := by
  by_cases hentry : rep.stop = .entry
  · exact (round_at_entry acts (.inl hentry) (entering_at_entry hflag hlegal hentry)).2.1
  by_cases hexit : rep.stop = .exit
  · have hname (i : ℤ) : Keeps SameMem (record (.namesAt i)) := keeps_modify fun _ ↦ ⟨rfl⟩
    have hkeeps : Keeps SameMem
        ((choice acts rep.tracee.regs.orig_rax).handler rep.tracee.regs.orig_rax) := by
      cases hc : choice acts rep.tracee.regs.orig_rax with
      | deny => exact tolerates_sameMem.monitorDeny hname
      | os =>
        exact tolerates_sameMem.osHandlerOf hname fun _ ↦
          tolerates_sameMem.monitorMmap fun _ _ ↦ ⟨rfl⟩
      | lind => exact absurd ⟨hexit, hc⟩ h
      | nothing => exact keeps_pure _
    rw [state_round_syscall acts s (.inr hexit)]
    exact (hkeeps rep.env (s.world.atStop rep.tracee)).mem
  · have hstop : ¬ rep.stop.IsSyscall := not_or.2 ⟨hentry, hexit⟩
    obtain ⟨regs, hstate⟩ := state_round_of_not_syscall acts s hstop
    rw [hstate]

/-- At such an exit stop the memory is that of the result's copies. -/
theorem mem_round_of_leaving (h : LeavesEmulated acts s rep) :
    ∃ bs, (s.round acts rep).state.tracee.mem = copyMem rep.env rep.tracee.mem bs ∧
      (bs.map (fun b ↦ (b.dst, b.count)) = [] ∨
        ∃ c, LindCall.ofNr (cInt rep.tracee.regs.orig_rax) = some c ∧
          bs.map (fun b ↦ (b.dst, b.count)) =
            c.outputs rep.env rep.tracee.mem (argsOf rep.tracee.regs)) := by
  cases he : s.emulate rep with
  | halt e u => exact ⟨[], by rw [(round_of_halt h he).2.1]; rfl, .inl rfl⟩
  | done res u =>
    have hmem : memAfter rep.env rep.tracee.mem res =
        copyMem rep.env rep.tracee.mem (backsOf res) := by
      rcases res with - | ⟨ret, bs⟩ <;> rfl
    refine ⟨backsOf res, by rw [(round_of_done h he).2.1, hmem], ?_⟩
    cases hc : LindCall.ofNr (cInt rep.tracee.regs.orig_rax) with
    | none =>
      obtain ⟨u', hu'⟩ := emulate_of_ofNr_none (s := s) hc
      rw [he] at hu'
      cases hu'
      exact .inl rfl
    | some c =>
      rw [emulate_of_ofNr hc] at he
      exact (backs_of_emulation he).imp_right fun hb ↦ ⟨c, rfl, hb⟩

end Round

theorem run_getuidEntry : Run (Step lindActs) bootSys ([] ++ [getuidEntry])
    (bootSys.step lindActs getuidEntry) := Run.nil.snoc ⟨rfl, trivial, rfl⟩

theorem step_getuidExit : Step lindActs (bootSys.step lindActs getuidEntry) getuidExit
    ((bootSys.step lindActs getuidEntry).step lindActs getuidExit) :=
  ⟨rfl, ⟨rfl, by decide⟩, rfl⟩

end ReferenceMonitor
