import Mathlib.Data.List.Forall2
import ReferenceMonitor.Library.Runs

/-!
# Computations that write a log

A component of the state is a log, newest entry first, and a plan lists the items a computation is
to enter in it. `WorksOff Q whole plan entries` says that the entries answer the items of the plan
one after the other, as far as they go, and all of them where `whole` holds: a computation that
halts has followed its plan up to that point.

`Writes log Q plan x` is the judgement that `x` follows `plan`. Plans are appended where
computations are sequenced, and `Run.worksOff` appends those of the steps of a run.
-/

variable {ι κ : Type}

/-- `entries` answer the items of `plan`, each by `Q`: an initial part of them, or all. -/
def WorksOff (Q : ι → κ → Prop) (whole : Prop) (plan : List ι) (entries : List κ) : Prop :=
  ∃ items, items <+: plan ∧ (whole → items = plan) ∧ List.Forall₂ Q items entries

section WorksOff

variable {Q : ι → κ → Prop} {p q : Prop} {plan plan' : List ι} {entries entries' : List κ}

theorem worksOff_nil : WorksOff Q p [] [] := ⟨[], List.prefix_rfl, fun _ ↦ rfl, .nil⟩

theorem worksOff_singleton {i : ι} {k : κ} (h : Q i k) : WorksOff Q p [i] [k] :=
  ⟨[i], List.prefix_rfl, fun _ ↦ rfl, .cons h .nil⟩

theorem WorksOff.mono (h : WorksOff Q p plan entries) (hqp : q → p) :
    WorksOff Q q plan entries := by
  obtain ⟨items, hpre, hall, hQ⟩ := h
  exact ⟨items, hpre, fun hq ↦ hall (hqp hq), hQ⟩

/-- The whole of a plan, and then some of the next one. -/
theorem WorksOff.append (h : WorksOff Q p plan entries) (hp : p)
    (h' : WorksOff Q q plan' entries') : WorksOff Q q (plan ++ plan') (entries ++ entries') := by
  obtain ⟨items, -, hall, hQ⟩ := h
  obtain ⟨items', hpre', hall', hQ'⟩ := h'
  obtain rfl := hall hp
  refine ⟨items ++ items', (List.prefix_append_right_inj items).2 hpre', fun hq ↦ ?_,
    List.rel_append hQ hQ'⟩
  rw [hall' hq]

/-- A plan broken off is followed whatever was to come after it. -/
theorem WorksOff.append_right (h : WorksOff Q p plan entries) (hq : ¬ q) (plan' : List ι) :
    WorksOff Q q (plan ++ plan') entries := by
  obtain ⟨items, hpre, -, hQ⟩ := h
  exact ⟨items, hpre.trans (List.prefix_append _ _), fun h ↦ absurd h hq, hQ⟩

/-- There are at most as many entries as items. -/
theorem WorksOff.length_le (h : WorksOff Q p plan entries) : entries.length ≤ plan.length := by
  obtain ⟨items, hpre, -, hQ⟩ := h
  rw [← hQ.length_eq]
  exact hpre.length_le

end WorksOff

namespace Halting

variable {ρ ε σ α β : Type}

/-- The log is left as it is. -/
def SameLog (log : σ → List κ) (s t : σ) : Prop := log t = log s

instance (log : σ → List κ) : Std.Refl (SameLog log) := ⟨fun _ ↦ rfl⟩

instance (log : σ → List κ) : IsTrans σ (SameLog log) := ⟨fun _ _ _ h h' ↦ Eq.trans h' h⟩

/-- One run of `x` enters in the log what the plan says. -/
def Writes (log : σ → List κ) (Q : ι → κ → Prop) (plan : List ι) (x : Halting ρ ε σ α) : Prop :=
  ∀ r s, ∃ entries, log (x r s).state = entries.reverse ++ log s ∧
    WorksOff Q (x r s).Returns plan entries

section Writes

variable {log : σ → List κ} {Q : ι → κ → Prop} {plan plan' : List ι} {x : Halting ρ ε σ α}
  {f : α → Halting ρ ε σ β}

/-- A computation that leaves the log alone follows the empty plan. -/
theorem Keeps.writes (h : Keeps (SameLog log) x) : Writes log Q [] x :=
  fun r s ↦ ⟨[], h r s, worksOff_nil⟩

/-- One entry. -/
theorem writes_modify {g : σ → σ} {i : ι} {k : κ} (hg : ∀ s, log (g s) = k :: log s) (h : Q i k) :
    Writes log Q [i] (modify g : Halting ρ ε σ Unit) :=
  fun _ s ↦ ⟨[k], hg s, worksOff_singleton h⟩

/-- Sequencing, with what the first part yields: the plans are worked off one after the other, and
a halt of the first part breaks off both. -/
theorem Writes.bind_yields {P : α → Prop} (hx : Writes log Q plan x) (hP : Yields P x)
    (hf : ∀ a, P a → Writes log Q plan' (f a)) : Writes log Q (plan ++ plan') (x >>= f) := by
  intro r s
  obtain ⟨entries, hlog, hoff⟩ := hx r s
  rw [bind_apply]
  cases hxs : x r s with
  | done a t =>
    rw [hxs] at hlog hoff
    obtain ⟨entries', hlog', hoff'⟩ := hf a (hP hxs) r t
    refine ⟨entries ++ entries', ?_, hoff.append trivial hoff'⟩
    rw [Outcome.andThen_done, hlog', show log t = _ from hlog, List.reverse_append,
      List.append_assoc]
  | halt e t =>
    rw [hxs] at hlog hoff
    exact ⟨entries, hlog, hoff.append_right id plan'⟩

theorem Writes.bind (hx : Writes log Q plan x) (hf : ∀ a, Writes log Q plan' (f a)) :
    Writes log Q (plan ++ plan') (x >>= f) :=
  hx.bind_yields (P := fun _ ↦ True) (fun _ _ _ _ _ ↦ trivial) fun a _ ↦ hf a

/-- Nothing is entered after the first part. -/
theorem Writes.bind_keeps (hx : Writes log Q plan x) (hf : ∀ a, Keeps (SameLog log) (f a)) :
    Writes log Q plan (x >>= f) := by
  have h := hx.bind fun a ↦ (hf a).writes (Q := Q)
  rwa [List.append_nil] at h

/-- Nothing is entered before the second part. -/
theorem Keeps.bind_writes {P : α → Prop} (hx : Keeps (SameLog log) x) (hP : Yields P x)
    (hf : ∀ a, P a → Writes log Q plan (f a)) : Writes log Q plan (x >>= f) :=
  hx.writes.bind_yields hP hf

theorem Writes.ite {c : Prop} [Decidable c] {y : Halting ρ ε σ α} (hx : c → Writes log Q plan x)
    (hy : ¬ c → Writes log Q plan' y) :
    Writes log Q (if c then plan else plan') (if c then x else y) := by
  split
  · exact hx ‹_›
  · exact hy ‹_›

end Writes

end Halting

/-! ### Runs -/

/-- The log of a run whose steps are taken from `ongoing` states and follow their plans: it works
off the plans of all steps, one after the other. -/
theorem Run.worksOff {σ ℓ : Type} {step : σ → ℓ → σ → Prop} {start s : σ} {ls : List ℓ}
    {Q : ι → κ → Prop} {plan : ℓ → List ι} (log : σ → List κ) (ongoing : σ → Prop)
    (hstart : log start = []) (hgo : ∀ {s a t}, step s a t → ongoing s)
    (hstep : ∀ {ls s a t}, Run step start ls s → step s a t →
      ∃ entries, log t = entries.reverse ++ log s ∧ WorksOff Q (ongoing t) (plan a) entries)
    (hrun : Run step start ls s) : WorksOff Q (ongoing s) (ls.flatMap plan) (log s).reverse := by
  induction hrun with
  | nil =>
    rw [hstart]
    exact worksOff_nil
  | snoc hrun' ha ih =>
    obtain ⟨entries, hlog, hoff⟩ := hstep hrun' ha
    rw [List.flatMap_append, List.flatMap_singleton, hlog, List.reverse_append,
      List.reverse_reverse]
    exact ih.append (hgo ha) hoff
