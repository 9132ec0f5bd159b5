import ReferenceMonitor.Library.Triples
import ReferenceMonitor.Platform.Balance

/-!
# The globals along a session

`LindPythonInit` sets `repylib`, `code` and `context` one after the other and may give up in
between; `LindPythonFinalize` releases them and leaves the pointers as they are. Over any sequence
of calls an initialized interpreter has all three (`sound_run`), so that `LindPythonFinalize` always
returns. Without a dictionary nothing reaches Lind, and no request returns (`session_safe`).

The references behind `code` and `context` are borrowed from the result of `repy_main`, and
nevertheless released by every `LindPythonFinalize` (`globals_released`).
-/

namespace ReferenceMonitor

open Halting

/-! ### What the functions leave alone -/

/-- Lind was told nothing. -/
def Untold (s t : Session) : Prop :=
  t.interp.world.requests = s.interp.world.requests ∧
    t.interp.world.mappings = s.interp.world.mappings

/-- There are as many references to the code and the dictionary as before. -/
def SameOwned (s t : Session) : Prop :=
  t.balance .code = s.balance .code ∧ t.balance .context = s.balance .context

/-- The globals and the references behind them are as before, and without a dictionary Lind was told
nothing. -/
structure Modest (s t : Session) : Prop where
  initialized : t.initialized = s.initialized
  repylib : t.repylib = s.repylib
  code : t.code = s.code
  context : t.context = s.context
  owned : SameOwned s t
  told : s.context = false → Untold s t

instance : Std.Refl Modest := ⟨fun _ ↦ ⟨rfl, rfl, rfl, rfl, ⟨rfl, rfl⟩, fun _ ↦ ⟨rfl, rfl⟩⟩⟩

instance : IsTrans Session Modest where
  trans _ _ _ h k :=
    { initialized := k.initialized.trans h.initialized
      repylib := k.repylib.trans h.repylib
      code := k.code.trans h.code
      context := k.context.trans h.context
      owned := ⟨k.owned.1.trans h.owned.1, k.owned.2.trans h.owned.2⟩
      told := fun hs ↦
        have ht := k.told (h.context.trans hs)
        ⟨ht.1.trans (h.told hs).1, ht.2.trans (h.told hs).2⟩ }

/-- A dictionary is kept, the references behind the globals are as before, and the monitor's world
is untouched. -/
structure Prepares (s t : Session) : Prop where
  context : s.context = true → t.context = true
  owned : SameOwned s t
  world : t.interp.world = s.interp.world

theorem Prepares.told {s t : Session} (h : Prepares s t) : Untold s t := by
  rw [Untold, h.world]
  exact ⟨rfl, rfl⟩

instance : Std.Refl Prepares := ⟨fun _ ↦ ⟨id, ⟨rfl, rfl⟩, rfl⟩⟩

instance : IsTrans Session Prepares where
  trans _ _ _ h k :=
    { context := fun hs ↦ k.context (h.context hs)
      owned := ⟨k.owned.1.trans h.owned.1, k.owned.2.trans h.owned.2⟩
      world := k.world.trans h.world }

/-- A relation that counting references to other objects, exceptions and the GIL do not touch. -/
structure Coarse (R : Session → Session → Prop) : Prop where
  count : ∀ {s o n}, o ≠ .code → o ≠ .context → R s (Session.count s o n)
  raised : ∀ {s} b, R s { s with interp := { s.interp with raised := b } }
  gil : ∀ {s} n, R s { s with interp := { s.interp with gil := n } }

theorem sameOwned_count {s : Session} {o : PyObj} {n : ℤ} (h : o ≠ .code) (h' : o ≠ .context) :
    SameOwned s (s.count o n) := by
  constructor
  · simp [Session.count, Pi.single_eq_of_ne h.symm]
  · simp [Session.count, Pi.single_eq_of_ne h'.symm]

theorem coarse_modest : Coarse Modest where
  count h h' := ⟨rfl, rfl, rfl, rfl, sameOwned_count h h', fun _ ↦ ⟨rfl, rfl⟩⟩
  raised _ := ⟨rfl, rfl, rfl, rfl, ⟨rfl, rfl⟩, fun _ ↦ ⟨rfl, rfl⟩⟩
  gil _ := ⟨rfl, rfl, rfl, rfl, ⟨rfl, rfl⟩, fun _ ↦ ⟨rfl, rfl⟩⟩

theorem coarse_prepares : Coarse Prepares where
  count h h' := ⟨id, sameOwned_count h h', rfl⟩
  raised _ := ⟨id, ⟨rfl, rfl⟩, rfl⟩
  gil _ := ⟨id, ⟨rfl, rfl⟩, rfl⟩

namespace Coarse

variable {R : Session → Session → Prop} (h : Coarse R)

include h

theorem newRef {o : PyObj} (ho : o ≠ .code) (ho' : o ≠ .context) (given : Bool) :
    Keeps R (newRef o given) := by
  intro env s
  rw [newRef_apply, Outcome.state_done, Session.got]
  split
  · exact h.count ho ho'
  · exact h.raised true

theorem decref {o : PyObj} (ho : o ≠ .code) (ho' : o ≠ .context) (obj : Bool) :
    Keeps R (decref o obj) := keeps_modify fun _ ↦ h.count ho ho'

theorem printIf (error : Bool) : Keeps R (printIf error) := by
  intro env s
  rw [printIf_apply]
  exact h.raised _

theorem withGil [IsTrans Session R] {α : Type} {x : Capi α} (hx : Keeps R x) :
    Keeps R (withGil x) := by
  intro env s
  have hrun : ReferenceMonitor.withGil x env s =
      (x env { s with interp := { s.interp with gil := s.interp.gil + 1 } }).andThen fun a t ↦
        .done a { t with interp := { t.interp with gil := t.interp.gil - 1 } } := rfl
  have hbody := trans_of R (h.gil (s := s) _)
    (hx env { s with interp := { s.interp with gil := s.interp.gil + 1 } })
  rw [hrun]
  cases hx' : x env { s with interp := { s.interp with gil := s.interp.gil + 1 } } with
  | done a t =>
    rw [hx'] at hbody
    exact trans_of R hbody (h.gil _)
  | halt e t =>
    rw [hx'] at hbody
    exact hbody

end Coarse

/-! ### Requests and mappings -/

/-- What a called function does to the interpreter. -/
theorem modest_noted (s : Session) : Modest s s.noted := by
  rw [noted_eq]
  exact ⟨rfl, rfl, rfl, rfl, ⟨rfl, rfl⟩, fun _ ↦ ⟨rfl, rfl⟩⟩

/-- `CallPythonFunc`: without a dictionary it comes to nothing, and with one Lind may be told
whatever the function is called for. -/
theorem modest_callPythonFunc {α : Type} {func : PyFunc} {args : Bool} {call : Capi (Option α)}
    (hcall : ∀ env s, s.context = true → Modest s (call env s).state) :
    Keeps Modest (callPythonFunc func args call) := by
  intro env s
  rw [callPythonFunc_apply]
  split
  · rename_i hcontext
    have hnoted := modest_noted s
    have hcalled : Modest s ((if env.ok (.func func) && args then call else pure none) env
        s.noted).state := by
      refine trans_of Modest hnoted ?_
      rw [ite_run]
      split
      · exact hcall env _ (hnoted.context.trans hcontext)
      · exact refl_of Modest _
    cases hrun : (if env.ok (.func func) && args then call else pure none) env s.noted with
    | halt e t =>
      rw [hrun] at hcalled
      exact hcalled
    | done result t =>
      rw [hrun] at hcalled
      have howned : SameOwned t (t.called func (env.ok (.func func)) result.isSome) := by
        constructor <;> simp [Session.called]
      have hret : Modest t (t.called func (env.ok (.func func)) result.isSome) :=
        ⟨rfl, rfl, rfl, rfl, howned, fun _ ↦ ⟨rfl, rfl⟩⟩
      exact trans_of Modest hcalled hret
  · exact modest_noted s

/-- Code that runs in the interpreter, where there is a dictionary. -/
theorem modest_inInterp {α : Type} (x : Py α) (env : PyEnv) {s : Session}
    (hcontext : s.context = true) : Modest s (inInterp x env s).state := by
  have htold (t : Session) (h : s.context = false) : Untold s t := by
    rw [hcontext] at h
    cases h
  rw [inInterp_apply]
  cases x env.env s.interp <;> exact ⟨rfl, rfl, rfl, rfl, ⟨rfl, rfl⟩, htold _⟩

theorem modest_fetch {α : Type} (q : Fetch α) : Keeps Modest (inInterp (inWorld (fetch q))) := by
  intro env s
  rw [inInterp_apply, inWorld_apply, fetch, focus]
  cases q (env.env, s.interp.world.tracee.mem) [] <;>
    exact ⟨rfl, rfl, rfl, rfl, ⟨rfl, rfl⟩, fun _ ↦ ⟨rfl, rfl⟩⟩

theorem modest_makeLindSysCallObject (request : Fetch Request) :
    Keeps Modest (makeLindSysCallObject request) := by
  refine coarse_modest.withGil ((modest_fetch request).bind fun _ ↦ ?_)
  refine (coarse_modest.newRef (by decide) (by decide) _).bind fun _ ↦ ?_
  refine (coarse_modest.newRef (by decide) (by decide) _).bind fun _ ↦ ?_
  refine (modest_callPythonFunc fun env _ hcontext ↦ modest_inInterp _ env hcontext).bind
    fun _ ↦ ?_
  exact (coarse_modest.decref (by decide) (by decide) _).bind fun _ ↦
    (coarse_modest.decref (by decide) (by decide) _).bind fun _ ↦ keeps_pure _

/-- Only an answered request is parsed, and for that there has to be a dictionary. -/
theorem modest_lindWrapper (request : Fetch Request) (num : ℕ) (varg : List Dest) :
    Keeps Modest (lindWrapper request num varg) := by
  intro env s
  have hmake := modest_makeLindSysCallObject request env s
  rw [lindWrapper, bind_apply]
  cases hrun : makeLindSysCallObject request env s with
  | halt e t =>
    rw [hrun] at hmake
    exact hmake
  | done response t =>
    rw [hrun] at hmake
    have hcontext := (makeLindSysCallObject_eq_done hrun).1
    exact trans_of Modest hmake (modest_inInterp _ env (hmake.context.trans hcontext))

theorem modest_getHostFdFromLindFd (lindFd : ℤ) : Keeps Modest (getHostFdFromLindFd lindFd) := by
  refine coarse_modest.withGil (Keeps.ite (keeps_pure _) ?_)
  refine (coarse_modest.newRef (by decide) (by decide) _).bind fun _ ↦ Keeps.bind ?_ fun _ ↦ ?_
  · exact (coarse_modest.newRef (by decide) (by decide) _).bind fun _ ↦
      modest_callPythonFunc fun env s _ ↦ refl_of Modest s
  · exact (coarse_modest.printIf _).bind fun _ ↦
      (coarse_modest.decref (by decide) (by decide) _).bind fun _ ↦
        (coarse_modest.decref (by decide) (by decide) _).bind fun _ ↦ keeps_pure _

theorem modest_addMappingObject (src dest : ℤ) : Keeps Modest (addMappingObject src dest) := by
  refine Keeps.ite (keeps_pure _) ?_
  refine (coarse_modest.newRef (by decide) (by decide) _).bind fun _ ↦ Keeps.bind ?_ fun _ ↦ ?_
  · refine modest_callPythonFunc fun env s hcontext ↦ ?_
    have hmapped := modest_inInterp (inWorld (addMapping src dest)) env hcontext
    rw [bind_apply]
    cases hrun : inInterp (inWorld (addMapping src dest)) env s <;> rw [hrun] at hmapped <;>
      exact hmapped
  · exact (coarse_modest.decref (by decide) (by decide) _).bind fun _ ↦
      coarse_modest.decref (by decide) (by decide) _

theorem modest_getMappingObject (fd : ℤ) : Keeps Modest (getMappingObject fd) := by
  refine (coarse_modest.newRef (by decide) (by decide) _).bind fun _ ↦ Keeps.bind ?_ fun result ↦ ?_
  · exact modest_callPythonFunc fun env s _ ↦ refl_of Modest s
  · rcases result with - | result
    · exact keeps_stop _
    · exact (coarse_modest.decref (by decide) (by decide) _).bind fun _ ↦
        (coarse_modest.decref (by decide) (by decide) _).bind fun _ ↦ keeps_pure _

/-! ### `LindPythonInit` -/

/-- `LindPythonInit` up to the label `error`. -/
theorem prepares_startRepy : Keeps Prepares startRepy := by
  have hnew {o : PyObj} (ho : o ≠ .code) (ho' : o ≠ .context) (given : Bool) :
      Keeps Prepares (newRef o given) := coarse_prepares.newRef ho ho' given
  have hparse : Keeps Prepares parseGlobals := keeps_ask.bind fun _ ↦
    Keeps.ite (keeps_modify fun _ ↦ ⟨fun _ ↦ rfl, ⟨rfl, rfl⟩, rfl⟩) fun _ _ ↦
      coarse_prepares.raised true
  refine keeps_ask.bind fun _ ↦ Keeps.bind (Keeps.ite (keeps_pure _) (keeps_stop _)) fun _ ↦ ?_
  refine keeps_ask.bind fun _ ↦ Keeps.ite (keeps_pure _) ?_
  refine (hnew (by decide) (by decide) _).bind fun _ ↦ ?_
  refine (hnew (by decide) (by decide) _).bind fun _ ↦ ?_
  refine (hnew (by decide) (by decide) _).bind fun _ ↦ ?_
  refine (keeps_modify fun _ ↦ ⟨id, ⟨rfl, rfl⟩, rfl⟩).bind fun _ ↦ ?_
  refine Keeps.ite (keeps_pure _) ((hnew (by decide) (by decide) _).bind fun _ ↦ ?_)
  refine Keeps.ite (keeps_pure _) ((hnew (by decide) (by decide) _).bind fun _ ↦ ?_)
  refine (hnew (by decide) (by decide) _).bind fun _ ↦ Keeps.ite (keeps_pure _) ?_
  exact hparse.bind fun _ ↦ keeps_get.bind fun _ ↦
    Keeps.ite (keeps_pure _) (hnew (by decide) (by decide) _)

theorem prepares_lindPythonInit : Keeps Prepares lindPythonInit := by
  refine keeps_get.bind fun _ ↦ Keeps.bind (Keeps.ite (keeps_pure _) (keeps_stop _)) fun _ ↦ ?_
  refine (keeps_modify fun _ ↦ ⟨id, ⟨rfl, rfl⟩, rfl⟩).bind fun _ ↦ ?_
  refine Keeps.ite (keeps_pure _) (prepares_startRepy.bind fun _ ↦ Keeps.ite (keeps_pure _) ?_)
  refine (keeps_modify fun _ ↦ ⟨id, ⟨rfl, rfl⟩, rfl⟩).bind fun _ ↦ ?_
  exact Keeps.bind (fun _ _ ↦ coarse_prepares.raised false) fun _ ↦ keeps_pure _

/-- Only a missing `REPY_PATH` keeps `LindPythonInit` from returning. -/
theorem returns_startRepy {env : PyEnv} (henv : env.repyPath = true) (s : Session) :
    (startRepy env s).Returns := by
  cases hs : startRepy env s with
  | done success t => trivial
  | halt e t =>
    have hnew (o : PyObj) (given : Bool) : Fails (fun _ ↦ False) (newRef o given) := by
      intro env s e t h
      rw [newRef_apply] at h
      cases h
    have hraise : Fails (fun _ ↦ False) (inInterp raise) := by
      rintro env s e t ⟨⟩
    rw [startRepy, bind_apply, ask_apply, Outcome.andThen_done, bind_apply, require, if_pos henv,
      pure_apply, Outcome.andThen_done] at hs
    refine (?_ : Fails (fun _ ↦ False) _) hs
    refine fails_ask.bind fun _ ↦ (fails_pure _).ite ((hnew _ _).bind fun _ ↦ ?_)
    refine (hnew _ _).bind fun _ ↦ (hnew _ _).bind fun _ ↦ (fails_modify _).bind fun _ ↦ ?_
    refine (fails_pure _).ite ((hnew _ _).bind fun _ ↦ (fails_pure _).ite ?_)
    refine (hnew _ _).bind fun _ ↦ (hnew _ _).bind fun _ ↦ (fails_pure _).ite ?_
    exact (fails_ask.bind fun _ ↦ (fails_modify _).ite hraise).bind fun _ ↦ fails_get.bind fun _ ↦
      (fails_pure _).ite (hnew _ _)

/-- The first call of `LindPythonInit`. -/
theorem lindPythonInit_initial (env : PyEnv) (w : World) :
    lindPythonInit env (Session.initial w) =
      (startRepy env { Session.initial w with initialized := 1 }).andThen fun success s ↦
        (if success then pure 1 else (do
          modify fun s ↦ { s with initialized := 0 }
          inInterp errPrint
          return 0) : Capi ℤ) env s := rfl

/-- The interpreter is started, or not; the monitor's world is as it was. -/
theorem lindPythonInit_done {env : PyEnv} (henv : env.repyPath = true) (w : World) :
    ∃ ret s, lindPythonInit env (Session.initial w) = .done ret s ∧ s.interp.world = w := by
  have hworld := (prepares_lindPythonInit env (Session.initial w)).world
  have hreturns : (lindPythonInit env (Session.initial w)).Returns := by
    rw [lindPythonInit_initial]
    refine (returns_startRepy henv _).andThen fun success s ↦ ?_
    cases success <;> trivial
  obtain ⟨ret, s, hdone⟩ := Outcome.returns_iff.1 hreturns
  rw [hdone] at hworld
  exact ⟨ret, s, hdone, hworld⟩

/-- The globals of an initialized interpreter are set. -/
def Session.Sound (s : Session) : Prop :=
  s.initialized ≠ 0 → s.repylib = true ∧ s.code = true ∧ s.context = true

theorem sound_of_modest {s t : Session} (h : Modest s t) (hs : s.Sound) : t.Sound := by
  rw [Session.Sound, h.initialized, h.repylib, h.code, h.context]
  exact hs

theorem got_fields (s : Session) (o : PyObj) (obj : Bool) :
    (s.got o obj).repylib = s.repylib ∧ (s.got o obj).code = s.code ∧
      (s.got o obj).context = s.context := by
  cases obj <;> exact ⟨rfl, rfl, rfl⟩

/-- The calls that come before the label `error`, where they lead past it. -/
theorem triple_startRepy :
    Triple (fun _ ↦ True) startRepy fun success t ↦
      success = true → t.repylib = true ∧ t.code = true ∧ t.context = true := by
  have hgiveUp {P : Session → Prop} : Triple P (pure false : Capi Bool) fun success t ↦
      success = true → t.repylib = true ∧ t.code = true ∧ t.context = true :=
    triple_pure fun _ _ h ↦ by cases h
  have hnew (o : PyObj) : Triple (fun s ↦ s.repylib = true) (newRef o true)
      fun _ t ↦ t.repylib = true := by
    intro env s hs a t hdone
    rw [newRef_apply] at hdone
    cases hdone
    exact (got_fields ..).1.trans hs
  have hparse : Triple (fun s ↦ s.repylib = true) parseGlobals fun _ t ↦ t.repylib = true := by
    intro env s hs a t hdone
    rw [parseGlobals, bind_apply, ask_apply, Outcome.andThen_done, ite_run] at hdone
    split at hdone <;> cases hdone <;> exact hs
  refine triple_bind fun _ ↦ triple_bind fun _ ↦ triple_bind fun _ ↦ Triple.ite (fun _ ↦ hgiveUp)
    fun _ ↦ ?_
  refine triple_bind fun _ ↦ triple_bind fun _ ↦ triple_bind fun repylib ↦ ?_
  -- from here on the library is there
  refine (triple_modify (Q := fun t ↦ t.repylib = repylib) fun _ _ ↦ rfl).bind fun _ ↦ ?_
  refine Triple.ite (fun _ ↦ hgiveUp) fun hlib ↦ ?_
  obtain rfl : repylib = true := by simpa using hlib
  refine (hnew _).bind fun _ ↦ Triple.ite (fun _ ↦ hgiveUp) fun _ ↦ ?_
  refine (hnew _).bind fun _ ↦ (hnew _).bind fun _ ↦ Triple.ite (fun _ ↦ hgiveUp) fun _ ↦ ?_
  refine hparse.bind fun _ ↦ triple_get.bind fun s ↦ Triple.ite (fun _ ↦ hgiveUp) fun hset ↦ ?_
  have hboth : s.code = true ∧ s.context = true := by simpa using hset
  rintro env u ⟨rfl, hu⟩ a t hdone -
  rw [newRef_apply] at hdone
  cases hdone
  obtain ⟨hrepylib, hcode, hcontext⟩ := got_fields s .evalResult (true && env.ok .evalResult)
  exact ⟨hrepylib.trans hu, hcode.trans hboth.1, hcontext.trans hboth.2⟩

/-- `LindPythonInit` leaves no interpreter initialized whose globals are not set. -/
theorem triple_lindPythonInit : Triple Session.Sound lindPythonInit fun _ t ↦ t.Sound := by
  refine triple_get.bind fun s₀ ↦ Triple.bind (Q := fun _ s ↦ s₀ = s ∧ s.Sound) ?_ fun _ ↦ ?_
  · exact Triple.ite (fun _ ↦ triple_pure fun _ h ↦ h) fun _ _ _ _ _ _ h ↦ by cases h
  refine (triple_modify (Q := fun s ↦ s₀.initialized ≠ 0 → s.Sound) ?_).bind fun _ ↦ ?_
  · rintro s ⟨rfl, hs⟩ hne -
    exact hs hne
  refine Triple.ite (fun hne ↦ triple_pure fun s h ↦ h hne) fun _ ↦ ?_
  refine Triple.bind (fun _ _ _ _ _ h ↦ triple_startRepy trivial h) fun success ↦ ?_
  refine Triple.ite (fun hsuccess ↦ triple_pure fun s h _ ↦ h hsuccess) fun _ ↦ ?_
  refine (triple_modify (Q := fun s ↦ s.initialized = 0) fun _ _ ↦ rfl).bind fun _ ↦ ?_
  refine Triple.bind (Q := fun _ s ↦ s.initialized = 0) ?_ fun _ ↦ ?_
  · rintro env s hs a t ⟨⟩
    exact hs
  · exact triple_pure fun s hs hne ↦ absurd hs hne

/-! ### `LindPythonFinalize` -/

/-- Between the labels of `LindPythonFinalize` and its releases: only `initialized` may have
changed. -/
structure Winding (s t : Session) : Prop where
  initialized : t.initialized = 0 ∨ t.initialized = s.initialized
  repylib : t.repylib = s.repylib
  code : t.code = s.code
  context : t.context = s.context
  owned : SameOwned s t

/-- The globals are released. Their pointers stay as they are. -/
structure Finalized (s t : Session) : Prop where
  initialized : t.initialized = 0 ∨ t.initialized = s.initialized
  repylib : t.repylib = s.repylib
  code : t.code = s.code
  context : t.context = s.context
  codeRefs : t.balance .code = s.balance .code - 1
  contextRefs : t.balance .context = s.balance .context - 1

section Finalize

variable {s₀ : Session} (hrepylib : s₀.repylib = true) (hcode : s₀.code = true)
  (hcontext : s₀.context = true)

theorem total_of_modest {α : Type} {x : Capi α} (hx : Keeps Modest x)
    (hret : ∀ env s, Modest s₀ s → (x env s).Returns) :
    Total (Modest s₀) x fun _ ↦ Modest s₀ :=
  hx.total (fun _ _ hst hs ↦ trans_of Modest hs hst) hret

theorem total_newRef {o : PyObj} (ho : o ≠ .code) (ho' : o ≠ .context) (given : Bool) :
    Total (Modest s₀) (newRef o given) fun _ ↦ Modest s₀ :=
  total_of_modest (coarse_modest.newRef ho ho' given) fun env s _ ↦ by
    rw [newRef_apply]
    trivial

include hcontext hrepylib in
/-- What is held for release are not the globals. -/
theorem total_finalizeCalls : Total (Modest s₀) finalizeCalls fun p t ↦
    Modest s₀ t ∧ ∀ o ∈ p.1, o ≠ .code ∧ o ≠ .context := by
  have hcall : Total (Modest s₀) (callPythonFunc0 .finalize
      (return if (← ask).ok .result then some () else none)) fun _ ↦ Modest s₀ := by
    refine (total_newRef (by decide) (by decide) _).bind fun args ↦ ?_
    exact total_of_modest (modest_callPythonFunc fun env s _ ↦ refl_of Modest s) fun env s hs ↦
      returns_callPythonFunc (hs.context.trans hcontext) fun _ ↦ trivial
  refine hcall.bind fun result ↦ Total.ite (fun _ ↦ total_pure fun _ h ↦ ⟨h, by simp⟩) fun _ ↦ ?_
  refine total_get.bind fun s ↦ Total.bind (Q := fun _ ↦ Modest s₀) ?_ fun _ ↦ ?_
  · rintro env t ⟨rfl, ht⟩
    rw [require, ht.repylib, hrepylib]
    exact ⟨(), _, rfl, ht⟩
  refine (total_newRef (by decide) (by decide) _).bind fun _ ↦ ?_
  refine Total.ite (fun _ ↦ total_pure fun _ h ↦ ⟨h, by simp⟩) fun _ ↦ ?_
  refine (total_newRef (by decide) (by decide) _).bind fun _ ↦ ?_
  refine (total_newRef (by decide) (by decide) _).bind fun _ ↦ ?_
  exact Total.ite (fun _ ↦ total_pure fun _ h ↦ ⟨h, by simp⟩)
    fun _ ↦ total_pure fun _ h ↦ ⟨h, by simp⟩

theorem total_release {held : List PyObj} (hheld : ∀ o ∈ held, o ≠ .code ∧ o ≠ .context) :
    Total (Winding s₀) (held.forM (decref · true)) fun _ ↦ Winding s₀ := by
  induction held with
  | nil => exact total_pure fun _ h ↦ h
  | cons o held ih =>
    have ho := hheld o List.mem_cons_self
    refine Total.bind (Q := fun _ ↦ Winding s₀) (fun env s hs ↦ ?_)
      fun _ ↦ ih fun o' ho' ↦ hheld o' (List.mem_cons_of_mem _ ho')
    obtain ⟨hsame, hsame'⟩ : SameOwned s (s.release o true) := sameOwned_count ho.1 ho.2
    exact ⟨(), s.release o true, rfl, hs.initialized, hs.repylib, hs.code, hs.context,
      hsame.trans hs.owned.1, hsame'.trans hs.owned.2⟩

include hcontext hrepylib hcode in
theorem total_finalizeBody : Total (Modest s₀) finalizeBody fun _ ↦ Finalized s₀ := by
  refine (total_finalizeCalls hrepylib hcontext).bind fun ⟨held, finalized⟩ ↦ ?_
  -- the fact about what is held does not depend on the state
  rintro env u ⟨hu, hheld⟩
  have hrest : Total (Modest s₀) (do
      modify fun s ↦ { s with initialized := if finalized then 0 else s.initialized }
      printIf !finalized
      held.forM (decref · true)
      let s ← get
      decref .code s.code
      decref .context s.context
      decref .repylib s.repylib
      return if finalized then 1 else 0 : Capi ℤ) fun _ ↦ Finalized s₀ := by
    refine (total_modify (Q := Winding s₀) fun s hs ↦ ?_).bind fun _ ↦ ?_
    · refine ⟨?_, hs.repylib, hs.code, hs.context, hs.owned⟩
      split
      · exact .inl rfl
      · exact .inr hs.initialized
    refine Total.bind (Q := fun _ ↦ Winding s₀) (fun env s hs ↦ ?_) fun _ ↦ ?_
    · rw [printIf_apply]
      exact ⟨(), _, rfl, hs.initialized, hs.repylib, hs.code, hs.context, hs.owned⟩
    refine (total_release hheld).bind fun _ ↦ total_get.bind fun s ↦ ?_
    rintro env t ⟨rfl, hs⟩
    refine ⟨_, ((s.release .code s.code).release .context s.context).release .repylib s.repylib,
      rfl, hs.initialized, hs.repylib, hs.code, hs.context, ?_, ?_⟩
    · simp [hs.code, hcode, hs.owned.1]
    · simp [hs.context, hcontext, hs.owned.2]
  exact hrest hu

end Finalize

theorem lindPythonFinalize_apply (env : PyEnv) (s : Session) :
    lindPythonFinalize env s =
      if s.initialized = 0 then
        .done 0 { s with interp := { s.interp with gil := s.interp.gil + 1 } }
      else withGil finalizeBody env s := by
  simp only [lindPythonFinalize, bind_apply, inInterp_apply, gilEnsure, modify_apply, get_apply,
    Outcome.andThen_done, ite_run, pure_apply]
  rfl

/-- `LindPythonFinalize` of an initialized interpreter. -/
theorem lindPythonFinalize_done (env : PyEnv) {s : Session} (hs : s.Sound)
    (hne : s.initialized ≠ 0) :
    ∃ r t, lindPythonFinalize env s = .done r t ∧ Finalized s t := by
  obtain ⟨hrepylib, hcode, hcontext⟩ := hs hne
  obtain ⟨r, t, hbody, ht⟩ := total_finalizeBody hrepylib hcode hcontext (r := env)
    (coarse_modest.gil (s := s) (s.interp.gil + 1))
  refine ⟨r, { t with interp := { t.interp with gil := t.interp.gil - 1 } }, ?_, ?_⟩
  · rw [lindPythonFinalize_apply, if_neg hne, withGil, bind_apply]
    show (finalizeBody env _).andThen _ = _
    rw [hbody]
    rfl
  · exact ⟨ht.initialized, ht.repylib, ht.code, ht.context, ht.codeRefs, ht.contextRefs⟩

/-- It always returns. -/
theorem returns_lindPythonFinalize (env : PyEnv) {s : Session} (hs : s.Sound) :
    (lindPythonFinalize env s).Returns := by
  by_cases hzero : s.initialized = 0
  · rw [lindPythonFinalize_apply, if_pos hzero]
    trivial
  · obtain ⟨r, t, hdone, -⟩ := lindPythonFinalize_done env hs hzero
    rw [hdone]
    trivial

/-! ### Sequences of calls -/

/-- A call that returns. -/
def PlatformStep (s : Session) (c : PyEnv × PlatformCall) (t : Session) : Prop :=
  platformStep c s = .done () t

/-- Everything but starting and stopping the interpreter. -/
theorem modest_run {c : PlatformCall} (hc : c.Asks) : Keeps Modest c.run := by
  cases c with
  | init | finalize => exact hc.elim
  | wrapper request num varg =>
    exact (modest_lindWrapper request num varg).bind fun _ ↦ keeps_pure _
  | makeLindSysCall request =>
    exact (modest_makeLindSysCallObject request).bind fun _ ↦ keeps_pure _
  | getHostFd lindFd => exact (modest_getHostFdFromLindFd lindFd).bind fun _ ↦ keeps_pure _
  | addMapping src dest => exact modest_addMappingObject src dest
  | getMapping fd => exact (modest_getMappingObject fd).bind fun _ ↦ keeps_pure _

/-- A call finalizes an initialized interpreter. -/
def PlatformCall.finalizes (s : Session) : PlatformCall → Bool
  | finalize => s.initialized ≠ 0
  | _ => false

section Step

variable {s t : Session} {c : PyEnv × PlatformCall}

/-- One call, on the globals and the references behind them. -/
theorem sound_step (hs : s.Sound) (h : PlatformStep s c t) :
    t.Sound ∧
      t.balance .code = s.balance .code - (if c.2.finalizes s then 1 else 0) ∧
      t.balance .context = s.balance .context - (if c.2.finalizes s then 1 else 0) := by
  obtain ⟨env, call⟩ := c
  by_cases hc : call.Asks
  · have hmodest := modest_run hc env s
    rw [show call.run env s = .done () t from h] at hmodest
    have hno : call.finalizes s = false := by
      cases call <;> first | rfl | exact hc.elim
    simp only [hno]
    exact ⟨sound_of_modest hmodest hs, by simpa using hmodest.owned.1,
      by simpa using hmodest.owned.2⟩
  cases call with
  | init =>
    obtain ⟨r, u, hinit, hret⟩ := Outcome.andThen_eq_done_iff.1
      (show (lindPythonInit env s).andThen _ = .done () t from h)
    cases hret
    have hprep := prepares_lindPythonInit env s
    rw [hinit] at hprep
    have hsound : u.Sound := triple_lindPythonInit hs hinit
    exact ⟨hsound, by simpa [PlatformCall.finalizes] using hprep.owned.1,
      by simpa [PlatformCall.finalizes] using hprep.owned.2⟩
  | finalize =>
    obtain ⟨r, hfin⟩ := forget_eq_done_iff.1
      (show (lindPythonFinalize >>= fun _ ↦ pure ()) env s = .done () t from h)
    by_cases hzero : s.initialized = 0
    · rw [lindPythonFinalize_apply, if_pos hzero] at hfin
      cases hfin
      exact ⟨hs, by simp [PlatformCall.finalizes, hzero], by simp [PlatformCall.finalizes, hzero]⟩
    · obtain ⟨r', t', hdone, ht⟩ := lindPythonFinalize_done env hs hzero
      rw [hfin] at hdone
      cases hdone
      refine ⟨fun hne ↦ ?_, by simp [PlatformCall.finalizes, hzero, ht.codeRefs],
        by simp [PlatformCall.finalizes, hzero, ht.contextRefs]⟩
      rw [ht.repylib, ht.code, ht.context]
      exact hs hzero
  | wrapper | makeLindSysCall | getHostFd | addMapping | getMapping => exact absurd trivial hc

/-- One call, on what Lind is told: where there is no dictionary afterwards, returned or not, there
was none before, and Lind was told nothing. -/
theorem untold_step (hs : s.Sound) (h : (platformStep c s).state.context = false) :
    s.context = false ∧ Untold s (platformStep c s).state := by
  obtain ⟨env, call⟩ := c
  by_cases hc : call.Asks
  · have hmodest : Modest s (platformStep (env, call) s).state := modest_run hc env s
    rw [hmodest.context] at h
    exact ⟨h, hmodest.told h⟩
  cases call with
  | init =>
    have hstarted : Keeps Prepares (modify fun s ↦ { s with started := true } : Capi Unit) :=
      keeps_modify fun _ ↦ ⟨id, ⟨rfl, rfl⟩, rfl⟩
    have hprep : Prepares s (platformStep (env, .init) s).state :=
      (prepares_lindPythonInit.bind fun _ ↦ hstarted) env s
    refine ⟨?_, hprep.told⟩
    by_contra hcontext
    rw [hprep.context (by simpa using hcontext)] at h
    cases h
  | finalize =>
    have hrun : (platformStep (env, .finalize) s).state = (lindPythonFinalize env s).state := by
      show ((lindPythonFinalize env s).andThen _).state = _
      cases lindPythonFinalize env s <;> rfl
    rw [hrun] at h ⊢
    by_cases hzero : s.initialized = 0
    · rw [lindPythonFinalize_apply, if_pos hzero] at h ⊢
      exact ⟨h, rfl, rfl⟩
    · -- an initialized interpreter has a dictionary, and keeps it
      obtain ⟨r, t, hdone, ht⟩ := lindPythonFinalize_done env hs hzero
      rw [hdone, Outcome.state_done, ht.context, (hs hzero).2.2] at h
      cases h
  | wrapper | makeLindSysCall | getHostFd | addMapping | getMapping => exact absurd trivial hc

/-- A call that looks a function up: the descriptors it is given are not negative. -/
def PlatformCall.LooksUp : PlatformCall → Prop
  | init | finalize => False
  | wrapper _ _ _ | makeLindSysCall _ | getMapping _ => True
  | getHostFd lindFd => 0 ≤ lindFd
  | addMapping src dest => 0 ≤ src ∧ 0 ≤ dest

/-- Without a dictionary it does not return. -/
theorem context_of_looksUp (hc : c.2.LooksUp) (h : PlatformStep s c t) : s.context = true := by
  obtain ⟨env, call⟩ := c
  have hrun : call.run env s = .done () t := h
  cases call with
  | init | finalize => exact hc.elim
  | wrapper request num varg =>
    obtain ⟨v, hwrapper⟩ := forget_eq_done_iff.1 hrun
    obtain ⟨response, u, hmake, -⟩ := Outcome.andThen_eq_done_iff.1 hwrapper
    exact (makeLindSysCallObject_eq_done hmake).1
  | makeLindSysCall request =>
    obtain ⟨v, hmake⟩ := forget_eq_done_iff.1 hrun
    exact (makeLindSysCallObject_eq_done hmake).1
  | getHostFd lindFd =>
    obtain ⟨v, hget⟩ := forget_eq_done_iff.1 hrun
    exact (getHostFdFromLindFd_eq_done (not_lt.2 hc) hget).1
  | addMapping src dest =>
    have hneg : ¬ (src < 0 ∨ dest < 0) := fun h ↦
      h.elim (not_lt.2 hc.1) (not_lt.2 hc.2)
    exact (addMappingObject_eq_done hneg hrun).1
  | getMapping fd =>
    obtain ⟨v, hget⟩ := forget_eq_done_iff.1 hrun
    simp only [getMappingObject, bind_apply, newRef_apply, Outcome.andThen_done] at hget
    obtain ⟨result, u, hcall, -⟩ := Outcome.andThen_eq_done_iff.1 hget
    simpa using (callPythonFunc_eq_done hcall).1

end Step

/-- The session after a `LindPythonInit` that could not import `repylib`. -/
def unimported : Session :=
  (platformStep ({ PyEnv.smooth with ok := fun o ↦ o ≠ .repylib }, .init)
    (Session.initial zeroWorld)).state

/-- A call that returns, with the number of times an initialized interpreter was finalized. -/
def CountedStep (p : Session × ℕ) (c : PyEnv × PlatformCall) (q : Session × ℕ) : Prop :=
  PlatformStep p.1 c q.1 ∧ q.2 = p.2 + if c.2.finalizes p.1 then 1 else 0

/-- **The globals are released, and never taken.** After any sequence of calls the references to the
code and to the dictionary have been given back once for every `LindPythonFinalize` of an
initialized interpreter, and never been taken. -/
theorem globals_released {w : World} {calls : List (PyEnv × PlatformCall)} {s : Session} {n : ℕ}
    (hrun : Run CountedStep (Session.initial w, 0) calls (s, n)) :
    s.balance .code = -n ∧ s.balance .context = -n := by
  have hinv : s.Sound ∧ s.balance .code = -n ∧ s.balance .context = -n := by
    refine hrun.invariant (I := fun _ p ↦ p.1.Sound ∧ p.1.balance .code = -p.2 ∧
      p.1.balance .context = -p.2) ⟨fun h ↦ absurd rfl h, rfl, rfl⟩ ?_
    rintro _ ⟨u, m⟩ c ⟨t, k⟩ - ⟨hu, hcode, hcontext⟩ ⟨hstep, hcount⟩
    obtain ⟨hsound, hcode', hcontext'⟩ := sound_step hu hstep
    dsimp only at hcount hcode hcontext ⊢
    rw [hcode', hcontext', hcode, hcontext, hcount]
    refine ⟨hsound, ?_, ?_⟩ <;> split <;> push_cast <;> omega
  exact hinv.2

/-- A session after `LindPythonInit`, and after `LindPythonFinalize`. -/
def initializedSession : Session :=
  (platformStep (.smooth, .init) (Session.initial zeroWorld)).state

def finalizedSession : Session :=
  (platformStep (.smooth, .finalize) initializedSession).state

theorem run_finalized : Run CountedStep (Session.initial zeroWorld, 0)
    ([] ++ [(.smooth, .init)] ++ [(.smooth, .finalize)]) (finalizedSession, 1) := by
  have hinit : CountedStep (Session.initial zeroWorld, 0) (.smooth, .init)
      (initializedSession, 0) := ⟨rfl, rfl⟩
  have hfinalize : CountedStep (initializedSession, 0) (.smooth, .finalize) (finalizedSession, 1) :=
    ⟨rfl, rfl⟩
  exact (Run.nil.snoc hinit).snoc hfinalize

/-- One session from beginning to end. -/
theorem globals_released_once :
    finalizedSession.balance .code = -(1 : ℕ) ∧ finalizedSession.balance .context = -(1 : ℕ) :=
  globals_released run_finalized

end ReferenceMonitor
