import ReferenceMonitor.Machine.SetMem
import ReferenceMonitor.System.Descriptors

/-!
# Mappings without a descriptor

An anonymous mapping passes `mmap` the descriptor `-1`, as a rule with zeros in the high half of the
register. `monitor_mmap` tests the sign of the whole register, so that it asks the Repy table for
such a descriptor, too, and examines the answer even where there is none. What the host kernel
receives is then up to the table (`mmap_untranslated_iff`).
-/

namespace ReferenceMonitor

open Halting

/-- No entry of the table translates the descriptor. -/
def Untranslatable (table : List (ℤ × ℤ)) (fd : ℤ) : Prop := fd < 0 ∨ recorded table fd = none

/-- `monitor_mmap` returns, keeps every register but that of the descriptor, and passes the host
kernel a negative descriptor for one that is not translated. -/
structure MmapPasses (env : Env) (w : World) (t : Tracee) (w' : World) : Prop where
  returns : monitorMmap env (w.atStop t) = .done () w'
  regs : w'.tracee.regs = { t.regs with r8 := w'.tracee.regs.r8 }
  negative : Untranslatable w.mappings (cInt t.regs.r8) → HostCall.fd w'.tracee.regs.call < 0

/-- What the descriptor and the answer of the table must be like: a register with the sign bit has a
negative descriptor, or one with an entry; and for any other register there is an answer, which is
no integer, or a negative `int`, where the descriptor is not translated. -/
def MmapAnswered (env : Env) (table : List (ℤ × ℤ)) (r8 : Word) : Prop :=
  if 0 ≤ r8.toInt then
    ∃ v, env.lookup table (cInt r8) = some v ∧
      (Untranslatable table (cInt r8) → ∀ i, v.asLong = some i → wrapInt i < 0)
  else Untranslatable table (cInt r8) → cInt r8 < 0

section Mmap

variable {env : Env} {w w' : World} {t : Tracee}

/-- The entering branch: what `get_mapping` returns takes the place of the descriptor. -/
theorem monitorMmap_entry (env : Env) (t : Tracee) (hflag : w.entering = true) :
    (0 ≤ t.regs.r8.toInt → lookupFd env w.mappings (cInt t.regs.r8) = none →
      ∃ u, monitorMmap env (w.atStop t) = .halt (.segv 0) u) ∧
    (0 ≤ t.regs.r8.toInt → ∀ fd, lookupFd env w.mappings (cInt t.regs.r8) = some fd →
      ∃ u, monitorMmap env (w.atStop t) = .done () u ∧
        u.tracee.regs = { t.regs with r8 := ofInt fd }) ∧
    (t.regs.r8.toInt < 0 →
      ∃ u, monitorMmap env (w.atStop t) = .done () u ∧ u.tracee.regs = t.regs) := by
  rw [monitorMmap, phased_of_entering _ _ _ (show (w.atStop t).entering = true from hflag)]
  simp only [bind_apply, getRegs, get_apply, pure_apply, Outcome.andThen_done, ite_run,
    World.atStop, argsOf]
  -- the sign that is tested is that of the whole register
  refine ⟨fun hpos hnone ↦ ?_, fun hpos fd hfd ↦ ?_, fun hneg ↦ ?_⟩
  · rw [if_pos hpos]
    simp only [getMapping, bind_apply, ask_apply, get_apply, Outcome.andThen_done, hnone]
    exact ⟨_, rfl⟩
  · rw [if_pos hpos]
    simp only [getMapping, bind_apply, ask_apply, get_apply, Outcome.andThen_done, hfd]
    exact ⟨_, rfl, rfl⟩
  · rw [if_neg (not_le.2 hneg)]
    exact ⟨_, rfl, rfl⟩

/-- What `get_mapping` returns is an `int`. -/
theorem cInt_ofInt_lookupFd {table : List (ℤ × ℤ)} {l fd : ℤ} (h : lookupFd env table l = some fd) :
    cInt (ofInt fd) = fd := by
  obtain ⟨v, -, rfl⟩ := Option.map_eq_some_iff.1 h
  rw [cInt_ofInt]
  cases v.asLong with
  | none => rfl
  | some i =>
    obtain ⟨hlow, hhigh⟩ := wrapInt_bounds i
    exact wrapInt_eq_self hlow hhigh

/-- It is negative where the answer is no integer, or is negative as an `int`. -/
theorem lookupFd_negative_iff {table : List (ℤ × ℤ)} {l : ℤ} {P : Prop} :
    (∃ fd, lookupFd env table l = some fd ∧ (P → fd < 0)) ↔
      ∃ v, env.lookup table l = some v ∧ (P → ∀ i, v.asLong = some i → wrapInt i < 0) := by
  rw [lookupFd]
  cases env.lookup table l with
  | none => simp
  | some v =>
    simp only [Option.map_some, Option.some.injEq, exists_eq_left']
    refine imp_congr_right fun _ ↦ ?_
    cases v.asLong <;> simp

/-- **`mmap` without a descriptor.** The host kernel receives a negative descriptor, and everything
else as the tracee passed it, exactly where the table has such an answer, or is not asked. -/
theorem mmap_untranslated_iff (hflag : w.entering = true) :
    (∃ w', MmapPasses env w t w') ↔ MmapAnswered env w.mappings t.regs.r8 := by
  obtain ⟨hraised, hanswered, hkept⟩ := monitorMmap_entry env t hflag
  rw [MmapAnswered]
  split_ifs with hpos
  · rw [← lookupFd_negative_iff]
    constructor
    · rintro ⟨w', hdone, -, hneg⟩
      -- a call of the table that raises has halted the monitor
      rcases hlookup : lookupFd env w.mappings (cInt t.regs.r8) with - | fd
      · obtain ⟨u, hhalt⟩ := hraised hpos hlookup
        rw [hhalt] at hdone
        cases hdone
      · obtain ⟨u, hdone', hregs⟩ := hanswered hpos fd hlookup
        rw [hdone'] at hdone
        cases hdone
        rw [hregs] at hneg
        exact ⟨fd, rfl, fun hun ↦ cInt_ofInt_lookupFd hlookup ▸ hneg hun⟩
    · rintro ⟨fd, hlookup, hneg⟩
      obtain ⟨u, hdone, hregs⟩ := hanswered hpos fd hlookup
      refine ⟨u, hdone, by rw [hregs], fun hun ↦ ?_⟩
      have hfd : cInt (ofInt fd) < 0 := by
        rw [cInt_ofInt_lookupFd hlookup]
        exact hneg hun
      rw [hregs]
      exact hfd
  · obtain ⟨u, hdone, hregs⟩ := hkept (not_le.1 hpos)
    constructor
    · rintro ⟨w', hdone', -, hneg⟩
      rw [hdone] at hdone'
      cases hdone'
      rwa [hregs] at hneg
    · exact fun hneg ↦ ⟨u, hdone, by rw [hregs], by rwa [hregs]⟩

/-- A table that answers as it should, and has no negative entries, leaves registers whose sign is
not that of the descriptor. -/
theorem mmapAnswered_of_records (henv : Records env) {table : List (ℤ × ℤ)}
    (hentries : ∀ m ∈ table, 0 ≤ m.1 ∧ m.1 < 2 ^ 31 ∧ 0 ≤ m.2) {r8 : Word}
    (hsign : 0 ≤ r8.toInt ∨ cInt r8 < 0) : MmapAnswered env table r8 := by
  rw [MmapAnswered]
  split_ifs with hpos
  · have hanswer := henv table (cInt r8)
    cases hrec : recorded table (cInt r8) with
    | none =>
      rw [hrec] at hanswer
      obtain ⟨v, hv, hno⟩ := hanswer
      refine ⟨v, hv, fun _ i hi ↦ ?_⟩
      rw [hno] at hi
      cases hi
    | some native =>
      rw [hrec] at hanswer
      refine ⟨_, hanswer, fun hun ↦ ?_⟩
      rcases hun with hneg | hnone
      · rw [recorded_eq_none_of_neg hneg hentries] at hrec
        cases hrec
      · rw [hnone] at hrec
        cases hrec
  · exact fun _ ↦ hsign.resolve_left hpos

end Mmap

/-- A tracee that asks for an anonymous mapping. -/
def anonymousTracee (r8 : Word) : Tracee := ⟨{ callRegs 9 with r8 := r8 }, zeroMemory⟩

/-- The world of a monitor that expects an entry stop. -/
def entryWorld : World := { zeroWorld with entering := true }

theorem mmap_untranslated_iff_anonymous :
    (∃ w', MmapPasses Env.blank entryWorld (anonymousTracee (-1)) w') ↔
      MmapAnswered Env.blank entryWorld.mappings (-1) :=
  mmap_untranslated_iff (t := anonymousTracee (-1)) rfl

/-- With zeros in the high half of the register, the lookup raises. -/
theorem not_mmap_untranslated : ¬ ∀ (env : Env) (w : World) (t : Tracee), w.entering = true →
    ∃ w', MmapPasses env w t w' := by
  intro h
  have hpasses := h Env.blank entryWorld (anonymousTracee 0xFFFFFFFF) rfl
  rw [mmap_untranslated_iff rfl, MmapAnswered, if_pos (by decide)] at hpasses
  obtain ⟨v, hv, -⟩ := hpasses
  cases hv

end ReferenceMonitor
