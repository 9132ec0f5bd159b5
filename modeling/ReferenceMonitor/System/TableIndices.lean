import ReferenceMonitor.Monitor.Directives
import ReferenceMonitor.Monitor.HostCalls
import ReferenceMonitor.Monitor.Outcomes
import ReferenceMonitor.System.Rounds

/-!
# The indices of the two tables

`monitor_actions` and `syscall_names` have `TOTAL_SYSCALLS` entries and are indexed without a check.
`load_config` indexes them with what `get_syscall_num` returns, which is `-1` for a name it does not
know, and stops only at a repeated call. At a syscall stop, `intercept_calls` narrows the number to
an `int` before it looks the action up, while the handlers that print a name do not.
-/

namespace ReferenceMonitor

open Halting

/-! ### `load_config` -/

/-- The indices at which the loop of `load_config` accesses the two tables, up to its `exit`. -/
def loadIndices (l : Loader) : List (List Char) → List ℤ
  | [] => []
  | buff :: rest =>
    match directive buff with
    | none => loadIndices l rest
    | some (key, _) =>
      getSyscallNum key ::
        match loadPiece l buff with
        | .ok l' => loadIndices l' rest
        | .error _ => []

/-- Every directive before which no call is repeated names a call. -/
def KeysKnown (buffs : List (List Char)) : Prop :=
  ∀ pre buff post d, buffs = pre ++ buff :: post → directive buff = some d → (keysOf pre).Nodup →
    KnownName d.1

/-- What the loop has made of the directives so far, where their keys are names. -/
structure Loaded (l : Loader) (seen : List (List Char)) : Prop where
  known : ∀ key ∈ seen, KnownName key
  nodup : seen.Nodup
  actions : ∀ key, KnownName key → (l.actions (getSyscallNum key) = NO_VAL ↔ key ∉ seen)
  mact : l.mact ≠ NO_VAL

theorem loaded_empty (around : Actions) : Loaded ⟨emptyActions around, ALLOW_LIND⟩ [] where
  known _ h := absurd h List.not_mem_nil
  nodup := List.nodup_nil
  actions key h := iff_of_true (if_pos (inTable_getSyscallNum_iff.2 h)) List.not_mem_nil
  mact := show ALLOW_LIND ≠ NO_VAL by decide

/-- A directive with a new name is entered. -/
theorem loadPiece_of_new {l : Loader} {seen : List (List Char)} (h : Loaded l seen)
    {buff key value : List Char} (hd : directive buff = some (key, value)) (hknown : KnownName key)
    (hnew : key ∉ seen) : ∃ l', loadPiece l buff = .ok l' ∧ Loaded l' (seen ++ [key]) := by
  refine ⟨⟨Function.update l.actions (getSyscallNum key) (actionOf value l.mact),
    actionOf value l.mact⟩, ?_, ?_⟩
  · rw [loadPiece, hd]
    exact if_pos ((h.actions key hknown).2 hnew)
  · refine ⟨?_, ?_, fun key' hknown' ↦ ?_, actionOf_ne_noVal value h.mact⟩
    · intro key' hmem
      rcases List.mem_append.1 hmem with hseen | hlast
      · exact h.known key' hseen
      · rw [List.mem_singleton.1 hlast]
        exact hknown
    · refine List.nodup_append.2 ⟨h.nodup, by simp, fun a ha b hb ↦ ?_⟩
      rw [List.mem_singleton.1 hb]
      rintro rfl
      exact hnew ha
    · dsimp only
      by_cases heq : key' = key
      · subst heq
        rw [Function.update_self]
        simp [actionOf_ne_noVal value h.mact]
      · rw [Function.update_of_ne (mt (getSyscallNum_inj hknown' hknown).1 heq),
          h.actions key' hknown']
        simp [heq]

/-- A directive with a repeated name ends the run. -/
theorem loadPiece_of_seen {l : Loader} {seen : List (List Char)} (h : Loaded l seen)
    {buff key value : List Char} (hd : directive buff = some (key, value)) (hseen : key ∈ seen) :
    loadPiece l buff = .error (-1) := by
  rw [loadPiece, hd]
  exact if_neg fun hno ↦ (h.actions key (h.known key hseen)).1 hno hseen

/-- Every directive names a call, before which no key is repeated; `seen` are the keys before. -/
def KeysKnownAfter (seen : List (List Char)) (buffs : List (List Char)) : Prop :=
  ∀ pre buff post d, buffs = pre ++ buff :: post → directive buff = some d →
    (seen ++ keysOf pre).Nodup → KnownName d.1

theorem keysKnownAfter_nil (seen : List (List Char)) : KeysKnownAfter seen [] :=
  fun _ _ _ _ heq ↦ absurd heq.symm (List.append_ne_nil_of_right_ne_nil _ (List.cons_ne_nil _ _))

theorem keysKnownAfter_cons {seen : List (List Char)} {b : List Char} {bs : List (List Char)} :
    KeysKnownAfter seen (b :: bs) ↔
      (∀ d, directive b = some d → seen.Nodup → KnownName d.1) ∧
        KeysKnownAfter (seen ++ keysOf [b]) bs := by
  have hkeys (pre : List (List Char)) :
      seen ++ keysOf (b :: pre) = seen ++ keysOf [b] ++ keysOf pre := by
    rw [List.append_assoc, keysOf, keysOf, keysOf, ← List.filterMap_append, List.singleton_append]
  constructor
  · intro h
    refine ⟨fun d hdir hnodup ↦ h [] b bs d rfl hdir (by simpa [keysOf] using hnodup),
      fun pre buff post d heq hdir hnodup ↦ ?_⟩
    exact h (b :: pre) buff post d (by rw [heq, List.cons_append]) hdir (by rwa [hkeys])
  · rintro ⟨hfirst, hrest⟩ pre buff post d heq hdir hnodup
    rcases List.cons_eq_append_iff.1 heq with ⟨rfl, hpost⟩ | ⟨pre', rfl, hpost⟩
    · cases hpost
      exact hfirst d hdir (by simpa [keysOf] using hnodup)
    · exact hrest pre' buff post d hpost hdir (by rwa [← hkeys])

/-- Behind a repeated key nothing is required. -/
theorem keysKnownAfter_of_not_nodup {seen : List (List Char)} (h : ¬ seen.Nodup)
    (buffs : List (List Char)) : KeysKnownAfter seen buffs :=
  fun _ _ _ _ _ _ hnodup ↦ absurd (List.nodup_append.1 hnodup).1 h

/-- The loop stays in the table exactly where the names it gets to are known; `seen` are the keys
before. -/
theorem loadIndices_inTable_iff {l : Loader} {seen : List (List Char)} (h : Loaded l seen)
    (buffs : List (List Char)) :
    (∀ n ∈ loadIndices l buffs, InTable n) ↔ KeysKnownAfter seen buffs := by
  induction buffs generalizing l seen with
  | nil => exact iff_of_true (fun n hn ↦ absurd hn List.not_mem_nil) (keysKnownAfter_nil seen)
  | cons b buffs ih =>
    rw [keysKnownAfter_cons]
    cases hd : directive b with
    | none =>
      have hkeys : keysOf [b] = [] := by simp [keysOf, hd]
      rw [loadIndices, hd, hkeys, List.append_nil, ih h]
      exact (and_iff_right fun d hdir ↦ by cases hdir).symm
    | some d =>
      obtain ⟨key, value⟩ := d
      have hkeys : keysOf [b] = [key] := by simp [keysOf, hd]
      have hfirst : (∀ d, some (key, value) = some d → seen.Nodup → KnownName d.1) ↔
          KnownName key := by simp [h.nodup]
      rw [loadIndices, hd, hkeys, hfirst, List.forall_mem_cons, inTable_getSyscallNum_iff,
        and_congr_right_iff]
      intro hknown
      -- a repeated key ends the loop, a new one is entered
      by_cases hseen : key ∈ seen
      · rw [loadPiece_of_seen h hd hseen]
        refine iff_of_true (fun n hn ↦ absurd hn List.not_mem_nil)
          (keysKnownAfter_of_not_nodup (fun hnodup ↦ ?_) buffs)
        exact absurd rfl ((List.nodup_append.1 hnodup).2.2 key hseen key List.mem_cons_self)
      · obtain ⟨l', hload, hloaded⟩ := loadPiece_of_new h hd hknown hseen
        rw [hload]
        exact ih hloaded

/-! ### Syscall stops -/

/-- The index of an access to one of the tables. -/
def Event.tableIndex : Event → Option ℤ
  | actionsAt i => some i
  | namesAt i => some i
  | _ => none

/-- The indices in a trace, newest first. -/
def World.tableIndices (w : World) : List ℤ := w.trace.filterMap Event.tableIndex

/-- The handler that runs at the stop prints the name of the call. -/
def PrintsName (acts : Actions) (s : Sys) (rep : Report) : Prop :=
  let n := rep.tracee.regs.orig_rax
  choice acts n = .deny ∨
    (s.world.entering = false ∧ (choice acts n = .os ∧ OsCall.ofNr (cInt n) = none ∨
      choice acts n = .lind ∧ LindCall.ofNr (cInt n) = none))

instance (acts : Actions) (s : Sys) (rep : Report) : Decidable (PrintsName acts s rep) :=
  inferInstanceAs (Decidable (_ ∨ (_ ∧ (_ ∧ _ ∨ _ ∧ _))))

/-- No access was added. -/
structure SameIndices (w w' : World) : Prop where
  indices : w'.tableIndices = w.tableIndices

instance : Std.Refl SameIndices := ⟨fun _ ↦ ⟨rfl⟩⟩

instance : IsTrans World SameIndices := ⟨fun _ _ _ h h' ↦ ⟨h'.indices.trans h.indices⟩⟩

theorem sameIndices_fetch {α : Type} (q : Fetch α) : Keeps SameIndices (fetch q) :=
  keeps_focus q fun _ _ ↦ ⟨by
    simp [World.tableIndices, List.filterMap_append, List.filterMap_map, Function.comp_def,
      Event.tableIndex]⟩

theorem permits_sameIndices : Permits SameIndices where
  read := sameIndices_fetch
  send _ := (keeps_modify fun _ ↦ ⟨rfl⟩).bind fun _ ↦ keeps_ask.bind fun _ ↦ keeps_get.bind fun _ ↦
    keeps_pure _
  setErrno _ := keeps_modify fun _ ↦ ⟨rfl⟩

theorem tolerates_sameIndices : Tolerates SameIndices where
  branch _ _ := keeps_modify fun _ ↦ ⟨rfl⟩
  read _ := sameIndices_fetch _
  setEntering _ := keeps_modify fun _ ↦ ⟨rfl⟩
  setRetval _ := keeps_modify fun _ ↦ ⟨rfl⟩
  setArgs := keeps_modify fun _ ↦ ⟨rfl⟩

theorem sameIndices_finish (res : Option (Word × List CopyBack)) :
    Keeps SameIndices (finish res) := by
  cases res with
  | none => exact keeps_pure _
  | some p =>
    intro env w
    rw [finish_some_apply]
    exact ⟨by simp [World.tableIndices, List.filterMap_append, List.filterMap_map,
      Function.comp_def, Event.tableIndex]⟩

/-- The handler of an emulated call accesses neither table. -/
theorem sameIndices_emulated (c : LindCall) : Keeps SameIndices (emulated c.emulation) :=
  tolerates_sameIndices.phased (keeps_pure _) (keeps_getRegs.bind fun r ↦
    (permits_sameIndices.emulation
      (fun _ _ ↦ (keeps_pure _).ite (keeps_modify fun _ ↦ ⟨rfl⟩)) (fun _ _ _ ↦ ⟨rfl⟩) r).bind
        fun res ↦ sameIndices_finish res)

section Handlers

variable {env : Env} {w : World}

/-- A handler that prints the name on exit. -/
theorem indices_phased_name (enter leave : M Unit) (henter : Keeps SameIndices enter)
    (hleave : ∀ w, (leave env w).state.tableIndices = w.regs.syscall.toInt :: w.tableIndices) :
    (phased enter leave env w).state.tableIndices =
      (if w.entering = false then [w.regs.syscall.toInt] else []) ++ w.tableIndices := by
  cases hflag : w.entering with
  | true =>
    rw [phased_of_entering _ _ _ hflag]
    exact (henter env _).indices
  | false =>
    rw [phased_of_leaving _ _ _ hflag]
    have hl := hleave { w with trace := .branch false w.regs.syscall :: w.trace }
    generalize leave env { w with trace := .branch false w.regs.syscall :: w.trace } = o at hl ⊢
    cases o <;> exact hl

theorem indices_monitorDeny :
    (monitorDeny env w).state.tableIndices = w.regs.syscall.toInt :: w.tableIndices := by
  cases hflag : w.entering with
  | true =>
    rw [monitorDeny, phased_of_entering _ _ _ hflag]
    rfl
  | false =>
    rw [monitorDeny, phased_of_leaving _ _ _ hflag]
    rfl

end Handlers

/-- The accesses of a round at a syscall stop. -/
theorem tableIndices_round (acts : Actions) (s : Sys) {rep : Report} (hstop : rep.stop.IsSyscall) :
    (s.round acts rep).state.tableIndices =
      (if PrintsName acts s rep then [rep.tracee.regs.orig_rax.toInt] else []) ++
        [cInt rep.tracee.regs.orig_rax] ++ s.world.tableIndices := by
  have hwas : (s.world.atStop rep.tracee).tableIndices =
      [cInt rep.tracee.regs.orig_rax] ++ s.world.tableIndices := rfl
  have hnum : (s.world.atStop rep.tracee).regs.syscall = rep.tracee.regs.orig_rax := rfl
  have hflag : (s.world.atStop rep.tracee).entering = s.world.entering := rfl
  have hhandler : ((choice acts rep.tracee.regs.orig_rax).handler rep.tracee.regs.orig_rax rep.env
      (s.world.atStop rep.tracee)).state.tableIndices =
      (if PrintsName acts s rep then [rep.tracee.regs.orig_rax.toInt] else []) ++
        (s.world.atStop rep.tracee).tableIndices := by
    cases hc : choice acts rep.tracee.regs.orig_rax with
    | deny =>
      rw [Choice.handler, indices_monitorDeny, if_pos (.inl hc), hnum]
      rfl
    | nothing =>
      rw [if_neg (by simp [PrintsName, hc])]
      rfl
    | os =>
      rw [Choice.handler, osHandlerOf]
      cases ho : OsCall.ofNr (cInt rep.tracee.regs.orig_rax) with
      | none =>
        simp only [monitorOs, PrintsName, hc, ho, reduceCtorEq, false_or, or_false, and_true,
          false_and]
        rw [indices_phased_name _ _ (keeps_pure _) fun _ ↦ rfl, hnum, hflag]
      | some c =>
        rw [if_neg (by simp [PrintsName, hc, ho])]
        exact (tolerates_sameIndices.handler
          (fun _ ↦ tolerates_sameIndices.monitorMmap fun _ _ ↦ ⟨rfl⟩) rep.env _).indices
    | lind =>
      rw [Choice.handler, emulationOf]
      cases ho : LindCall.ofNr (cInt rep.tracee.regs.orig_rax) with
      -- only a call without a handler prints its name, with the number as it is
      | none =>
        simp only [emulated, PrintsName, hc, ho, reduceCtorEq, false_or, and_true, false_and]
        rw [indices_phased_name _ _ (keeps_pure _) fun _ ↦ rfl, hnum, hflag]
      | some c =>
        rw [if_neg (by simp [PrintsName, hc, ho])]
        exact (sameIndices_emulated c rep.env _).indices
  rw [state_round_syscall acts s hstop, List.append_assoc, ← hwas, hhandler]

/-- At the other reports there is none. -/
theorem tableIndices_round_other (acts : Actions) (s : Sys) {rep : Report}
    (hstop : ¬ rep.stop.IsSyscall) :
    (s.round acts rep).state.tableIndices = s.world.tableIndices := by
  obtain ⟨regs, hstate⟩ := state_round_of_not_syscall acts s hstop
  rw [hstate]
  rfl

/-! ### Both tables -/

/-- **Table indices.** `load_config` stays in the tables exactly where every directive it gets to
names a call; a round stays in them exactly where the narrowed number is in the table, and the whole
one is where its handler prints the name. -/
theorem indices_inTable_iff (around : Actions) (file : List Char) (acts : Actions) (s : Sys)
    (rep : Report) :
    ((∀ n ∈ loadIndices ⟨emptyActions around, ALLOW_LIND⟩ (pieces file), InTable n) ↔
        KeysKnown (pieces file)) ∧
      ∃ new, (s.round acts rep).state.tableIndices = new ++ s.world.tableIndices ∧
        ((∀ n ∈ new, InTable n) ↔ (rep.stop.IsSyscall → InTable (cInt rep.tracee.regs.orig_rax) ∧
          (PrintsName acts s rep → InTable rep.tracee.regs.orig_rax.toInt))) := by
  refine ⟨?_, ?_⟩
  · rw [loadIndices_inTable_iff (loaded_empty around)]
    simp only [KeysKnownAfter, List.nil_append, KeysKnown]
  · by_cases hstop : rep.stop.IsSyscall
    · refine ⟨_, tableIndices_round acts s hstop, ?_⟩
      simp only [hstop, true_imp_iff, List.mem_append, List.mem_singleton]
      constructor
      · intro h
        refine ⟨h _ (.inr rfl), fun hprint ↦ h _ (.inl ?_)⟩
        simp [hprint]
      · rintro ⟨hcall, hname⟩ n (hn | hn)
        · split_ifs at hn with hprint
          · rw [List.mem_singleton.1 hn]
            exact hname hprint
          · exact absurd hn List.not_mem_nil
        · rw [hn]
          exact hcall
    · refine ⟨[], tableIndices_round_other acts s hstop, ?_⟩
      exact iff_of_true (fun n hn ↦ absurd hn List.not_mem_nil) fun h ↦ absurd h hstop

set_option maxRecDepth 4000 in
theorem not_knownName_nil : ¬ KnownName [] := by
  rintro ⟨s, hs, hname⟩
  rw [String.toList_eq_nil_iff] at hname
  subst hname
  simp [syscallNames] at hs

/-- The line `=ALLOW_OS` sets the action of no call. -/
theorem not_indices_inTable : ¬ ((∀ around file,
      ∀ n ∈ loadIndices ⟨emptyActions around, ALLOW_LIND⟩ (pieces file), InTable n) ∧
    ∀ (acts : Actions) (s : Sys) (rep : Report), rep.stop.IsSyscall → ∃ new,
      (s.round acts rep).state.tableIndices = new ++ s.world.tableIndices ∧
        ∀ n ∈ new, InTable n) := by
  rintro ⟨hload, -⟩
  have hkey : getSyscallNum [] = -1 := getSyscallNum_of_not_known not_knownName_nil
  have hpieces : pieces "=ALLOW_OS\n".toList = ["=ALLOW_OS\n".toList] := by decide
  have hdir : directive "=ALLOW_OS\n".toList = some ([], "ALLOW_OS\n".toList) := by decide
  have hmem : (-1 : ℤ) ∈
      loadIndices ⟨emptyActions fun _ ↦ 0, ALLOW_LIND⟩ (pieces "=ALLOW_OS\n".toList) := by
    rw [hpieces, loadIndices, hdir, ← hkey]
    exact List.mem_cons_self
  exact absurd (hload (fun _ ↦ 0) "=ALLOW_OS\n".toList (-1) hmem).1 (by decide)

end ReferenceMonitor
