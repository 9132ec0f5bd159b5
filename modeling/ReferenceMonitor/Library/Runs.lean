import Mathlib.Data.List.Basic
import ReferenceMonitor.Library.Halting

/-!
# Runs of a labelled transition system

`Run step start ls s`: the steps labelled `ls`, in order, lead from `start` to `s`. A run grows at
its end, so that an invariant may speak of the history as well as of the state (`Run.invariant`).

Where the steps are computations that may halt, `AllSteps step P ls s` says that `P` holds of every
step that is taken when `ls` is worked off from `s`, and `inSequence step ls s` is what that comes
to. `whileTrue body xs s` is the loop over the
inputs `xs` whose body says whether to go on; it follows a run whose steps are its rounds.
-/

variable {σ ℓ : Type}

/-- A run from `start`, with the labels of its steps and the state reached. -/
inductive Run (step : σ → ℓ → σ → Prop) (start : σ) : List ℓ → σ → Prop
  | nil : Run step start [] start
  | snoc {ls : List ℓ} {s t : σ} {a : ℓ} :
      Run step start ls s → step s a t → Run step start (ls ++ [a]) t

namespace Run

variable {step step' : σ → ℓ → σ → Prop} {start s : σ} {ls : List ℓ}

/-- **Invariant rule.** What holds at the start and is kept by every step taken from a reachable
state holds at the end of every run. -/
theorem invariant {I : List ℓ → σ → Prop} (hstart : I [] start)
    (hstep : ∀ {ls s a t}, Run step start ls s → I ls s → step s a t → I (ls ++ [a]) t)
    (h : Run step start ls s) : I ls s := by
  induction h with
  | nil => exact hstart
  | snoc hrun ha ih => exact hstep hrun ih ha

/-- A run whose steps are steps of another system is a run of that system. -/
theorem mono (hsub : ∀ {s a t}, step s a t → step' s a t) (h : Run step start ls s) :
    Run step' start ls s := by
  induction h with
  | nil => exact nil
  | snoc _ ha ih => exact ih.snoc (hsub ha)

/-- A view of the states of a run is a run, under the same labels, of a system that has these views
as steps. -/
theorem image {σ' : Type} {step' : σ' → ℓ → σ' → Prop} (f : σ → σ')
    (hsub : ∀ {s a t}, step s a t → step' (f s) a (f t)) (h : Run step start ls s) :
    Run step' (f start) ls (f s) := by
  induction h with
  | nil => exact nil
  | snoc _ ha ih => exact ih.snoc (hsub ha)

/-- A view of the states and labels of a run is a run of a system that has these views as steps. -/
theorem map {σ' ℓ' : Type} {step' : σ' → ℓ' → σ' → Prop} (f : σ → σ') (g : σ → ℓ → ℓ')
    (hsub : ∀ {s a t}, step s a t → step' (f s) (g s a) (f t)) (h : Run step start ls s) :
    ∃ ls', Run step' (f start) ls' (f s) := by
  induction h with
  | nil => exact ⟨[], nil⟩
  | snoc _ ha ih =>
    obtain ⟨ls', hrun⟩ := ih
    exact ⟨_, hrun.snoc (hsub ha)⟩

end Run

/-! ### Sequences of computations that may halt -/

section AllSteps

variable {ε α : Type} {step : ℓ → σ → Outcome ε σ α} {P Q : ℓ → σ → Prop} {ls : List ℓ} {s : σ}

/-- `P` holds of every step and the state it is taken from. A step that halts is the last one. -/
def AllSteps (step : ℓ → σ → Outcome ε σ α) (P : ℓ → σ → Prop) : List ℓ → σ → Prop
  | [], _ => True
  | l :: ls, s => P l s ∧ ∀ a t, step l s = .done a t → AllSteps step P ls t

/-- Two conditions that agree wherever an invariant holds. The invariant need only be kept by the
steps that meet the first. -/
theorem allSteps_iff_of_invariant {I : σ → Prop} (hstart : I s)
    (hstep : ∀ {l s a t}, I s → P l s → step l s = .done a t → I t)
    (h : ∀ {l s}, I s → (P l s ↔ Q l s)) : AllSteps step P ls s ↔ AllSteps step Q ls s := by
  induction ls generalizing s with
  | nil => exact Iff.rfl
  | cons l ls ih =>
    -- the rest is worked off from states that keep the invariant, provided that `P` holds of `l`
    have hrest (hl : P l s) : (∀ a t, step l s = .done a t → AllSteps step P ls t) ↔
        ∀ a t, step l s = .done a t → AllSteps step Q ls t :=
      forall₃_congr fun a t hdone ↦ ih (hstep hstart hl hdone)
    rw [AllSteps, AllSteps, and_congr_right hrest, h hstart]

/-- Two conditions that agree on every step. -/
theorem allSteps_congr (h : ∀ l s, P l s ↔ Q l s) : AllSteps step P ls s ↔ AllSteps step Q ls s :=
  allSteps_iff_of_invariant (I := fun _ ↦ True) trivial (fun _ _ _ ↦ trivial) fun _ ↦ h _ _

end AllSteps

section InSequence

variable {ε σ' : Type} {step : ℓ → σ → Outcome ε σ Unit} {step' : ℓ → σ' → Outcome ε σ' Unit}

/-- Take the steps one after the other. -/
def inSequence (step : ℓ → σ → Outcome ε σ Unit) : List ℓ → σ → Outcome ε σ Unit
  | [], s => .done () s
  | l :: ls, s => (step l s).andThen fun _ t ↦ inSequence step ls t

/-- **Simulation rule.** A view that turns every step into one of another system, where an invariant
holds that the steps keep, turns every sequence into the same sequence there. -/
theorem bimap_inSequence {view : σ → σ'} {I : σ → Prop} {P : ℓ → Prop}
    (hview : ∀ {l s}, P l → I s → (step l s).bimap id view = step' l (view s))
    (hkeep : ∀ {l s t}, P l → I s → step l s = .done () t → I t) {ls : List ℓ} {s : σ}
    (hls : ∀ l ∈ ls, P l) (hs : I s) :
    (inSequence step ls s).bimap id view = inSequence step' ls (view s) := by
  induction ls generalizing s with
  | nil => rfl
  | cons l ls ih =>
    have hl := hls l List.mem_cons_self
    have hstep := hview hl hs
    rw [inSequence, inSequence, ← hstep]
    cases hlt : step l s with
    | done u t => exact ih (fun l' hl' ↦ hls l' (List.mem_cons_of_mem l hl')) (hkeep hl hs hlt)
    | halt e t => rfl

end InSequence

/-! ### Loops over inputs -/

section WhileTrue

variable {ι ε : Type} {body : ι → σ → Outcome ε σ Bool}

/-- Work off the inputs while the body says to go on; true where it still does after the last. -/
def whileTrue (body : ι → σ → Outcome ε σ Bool) : List ι → σ → Outcome ε σ Bool
  | [], s => .done true s
  | x :: xs, s => (body x s).andThen fun goOn t ↦
    if goOn then whileTrue body xs t else .done false t

/-- The last input is taken where the loop goes on after the others. -/
theorem whileTrue_concat {xs : List ι} {s t : σ} (h : whileTrue body xs s = .done true t) (x : ι) :
    whileTrue body (xs ++ [x]) s = body x t := by
  induction xs generalizing s with
  | nil =>
    cases h
    rw [List.nil_append, whileTrue]
    cases body x t with
    | halt e u => rfl
    | done goOn u => cases goOn <;> rfl
  | cons y xs ih =>
    rw [whileTrue] at h
    rw [List.cons_append, whileTrue]
    cases hy : body y s with
    | halt e u =>
      rw [hy] at h
      cases h
    | done goOn u =>
      rw [hy] at h
      cases goOn with
      | true => exact ih h
      | false => cases h

/-- A loop follows a run whose steps are its rounds, as long as they go on. -/
theorem Run.whileTrue {τ : Type} {step : τ → ℓ → τ → Prop} {start s : τ} {view : τ → σ}
    {alive : τ → Prop} {input : ℓ → ι} (halive : ∀ {s a t}, step s a t → alive s)
    (hround : ∀ {s a t}, step s a t → alive t → body (input a) (view s) = .done true (view t))
    (h : Run step start ls s) (hs : alive s) :
    whileTrue body (ls.map input) (view start) = .done true (view s) := by
  induction h with
  | nil => rfl
  | snoc _ ha ih =>
    rw [List.map_append, List.map_singleton, whileTrue_concat (ih (halive ha)), hround ha hs]

end WhileTrue
