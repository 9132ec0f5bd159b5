import ReferenceMonitor.Library.Halting

/-!
# Pre- and postconditions of computations that may halt

`Triple P x Q`: where `x` returns from a state with `P`, its value and the state reached satisfy
`Q`. `Total P x Q`: it does return from every such state. The rules follow the constructors of a
program; a state that a program reads is remembered as an equation.
-/

namespace Halting

variable {ρ ε σ α β : Type} {P : σ → Prop} {Q : α → σ → Prop} {S : β → σ → Prop}

/-! ### Partial correctness -/

/-- What is returned from a state with `P` satisfies `Q`. -/
def Triple (P : σ → Prop) (x : Halting ρ ε σ α) (Q : α → σ → Prop) : Prop :=
  ∀ ⦃r s⦄, P s → ∀ ⦃a t⦄, x r s = .done a t → Q a t

theorem triple_pure {a : α} (h : ∀ s, P s → Q a s) : Triple P (pure a : Halting ρ ε σ α) Q := by
  rintro r s hs b t ⟨⟩
  exact h s hs

theorem triple_get : Triple P (get : Halting ρ ε σ σ) fun a s ↦ a = s ∧ P s := by
  rintro r s hs a t ⟨⟩
  exact ⟨rfl, hs⟩

theorem triple_modify {f : σ → σ} {Q : σ → Prop} (h : ∀ s, P s → Q (f s)) :
    Triple P (modify f : Halting ρ ε σ Unit) fun _ ↦ Q := by
  rintro r s hs a t ⟨⟩
  exact h s hs

/-- Sequencing. -/
theorem Triple.bind {x : Halting ρ ε σ α} {f : α → Halting ρ ε σ β} (hx : Triple P x Q)
    (hf : ∀ a, Triple (Q a) (f a) S) : Triple P (x >>= f) S := by
  intro r s hs b t hdone
  obtain ⟨a, u, hau, hbt⟩ := Outcome.andThen_eq_done_iff.1 hdone
  exact hf a (hx hs hau) hbt

/-- Sequencing, where the second part needs nothing of the first. -/
theorem triple_bind {x : Halting ρ ε σ α} {f : α → Halting ρ ε σ β}
    (hf : ∀ a, Triple (fun _ ↦ True) (f a) S) : Triple P (x >>= f) S :=
  Triple.bind (fun _ _ _ _ _ _ ↦ trivial) hf

theorem Triple.ite {c : Prop} [Decidable c] {x y : Halting ρ ε σ α}
    (hx : c → Triple P x Q) (hy : ¬ c → Triple P y Q) : Triple P (if c then x else y) Q := by
  split
  · exact hx (by assumption)
  · exact hy (by assumption)

/-- What a computation keeps is a postcondition. -/
theorem Keeps.triple {R : σ → σ → Prop} {x : Halting ρ ε σ α} (hx : Keeps R x)
    (hP : ∀ s t, R s t → P s → P t) : Triple P x fun _ ↦ P := by
  intro r s hs a t hdone
  have hst := hx r s
  rw [hdone] at hst
  exact hP s t hst hs

/-! ### Total correctness -/

/-- From a state with `P` the computation returns, and what it returns satisfies `Q`. -/
def Total (P : σ → Prop) (x : Halting ρ ε σ α) (Q : α → σ → Prop) : Prop :=
  ∀ ⦃r s⦄, P s → ∃ a t, x r s = .done a t ∧ Q a t

theorem total_pure {a : α} (h : ∀ s, P s → Q a s) : Total P (pure a : Halting ρ ε σ α) Q :=
  fun _ s hs ↦ ⟨a, s, rfl, h s hs⟩

theorem total_get : Total P (get : Halting ρ ε σ σ) fun a s ↦ a = s ∧ P s :=
  fun _ s hs ↦ ⟨s, s, rfl, rfl, hs⟩

theorem total_modify {f : σ → σ} {Q : σ → Prop} (h : ∀ s, P s → Q (f s)) :
    Total P (modify f : Halting ρ ε σ Unit) fun _ ↦ Q := fun _ s hs ↦ ⟨(), f s, rfl, h s hs⟩

/-- Sequencing. -/
theorem Total.bind {x : Halting ρ ε σ α} {f : α → Halting ρ ε σ β} (hx : Total P x Q)
    (hf : ∀ a, Total (Q a) (f a) S) : Total P (x >>= f) S := by
  intro r s hs
  obtain ⟨a, u, hau, hQ⟩ := hx (r := r) hs
  obtain ⟨b, t, hbt, hS⟩ := hf a (r := r) hQ
  exact ⟨b, t, by rw [bind_apply, hau, Outcome.andThen_done, hbt], hS⟩

theorem Total.ite {c : Prop} [Decidable c] {x y : Halting ρ ε σ α}
    (hx : c → Total P x Q) (hy : ¬ c → Total P y Q) : Total P (if c then x else y) Q := by
  split
  · exact hx (by assumption)
  · exact hy (by assumption)

/-- What a computation that returns keeps is a postcondition. -/
theorem Keeps.total {R : σ → σ → Prop} {x : Halting ρ ε σ α} (hx : Keeps R x)
    (hP : ∀ s t, R s t → P s → P t) (hret : ∀ r s, P s → (x r s).Returns) :
    Total P x fun _ ↦ P := by
  intro r s hs
  obtain ⟨a, t, hdone⟩ := Outcome.returns_iff.1 (hret r s hs)
  exact ⟨a, t, hdone, hx.triple hP hs hdone⟩

theorem Total.returns {x : Halting ρ ε σ α} (hx : Total P x Q) {r : ρ} {s : σ} (hs : P s) :
    (x r s).Returns := by
  obtain ⟨a, t, hdone, -⟩ := hx (r := r) hs
  exact Outcome.returns_iff.2 ⟨a, t, hdone⟩

end Halting
