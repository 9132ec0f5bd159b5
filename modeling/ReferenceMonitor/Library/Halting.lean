import Mathlib.Order.Defs.Unbundled
import Mathlib.Order.RelClasses

/-!
# Computations that read an environment, change a state and may halt

`Halting ρ ε σ α` is the type of computations that read an environment `ρ`, transform a state `σ`
and either return a value of `α` or halt for a reason in `ε`. The state survives a halt: what a
program did before it stopped is part of its meaning, so `Outcome.halt` carries the state reached,
as `Outcome.done` does.

Four judgements are developed, with a rule for every constructor of a program:

* `Keeps R x` — one run of `x` relates the initial state to the state reached, halted or not, by
  the preorder `R`. Frame conditions ("everything else is unchanged") are of this form.
* `Yields P x` — every value that `x` returns satisfies `P`.
* `Fails P x` — every reason for which `x` halts satisfies `P`.
* `Lockstep E R S x y` — two runs, in environments related by `E` and from states related by `R`,
  end alike: both return values related by `S`, or both halt. Noninterference is of this form.
* `Respects P R x` — `x` is in lockstep with itself, in one environment that satisfies `P`.

`focus` runs a computation with a smaller environment and a smaller state inside a larger one.
-/

/-- How a computation ends: with a value, or for a reason; in both cases in a state. -/
inductive Outcome (ε σ α : Type) where
  /-- The computation returned `value`. -/
  | done (value : α) (state : σ)
  /-- The computation stopped for `reason`. -/
  | halt (reason : ε) (state : σ)

namespace Outcome

variable {ε σ α β γ : Type}

/-- The state reached, whichever way the computation ended. -/
def state : Outcome ε σ α → σ
  | done _ s => s
  | halt _ s => s

/-- The value, if the computation returned one. -/
def toOption : Outcome ε σ α → Option α
  | done a _ => some a
  | halt _ _ => none

/-- The computation returned a value. -/
def Returns : Outcome ε σ α → Prop
  | done _ _ => True
  | halt _ _ => False

/-- Continue after a value; a halt is final. -/
def andThen (o : Outcome ε σ α) (f : α → σ → Outcome ε σ β) : Outcome ε σ β :=
  match o with
  | done a s => f a s
  | halt e s => halt e s

@[simp] theorem state_done (a : α) (s : σ) : (done a s : Outcome ε σ α).state = s := rfl

@[simp] theorem state_halt (e : ε) (s : σ) : (halt e s : Outcome ε σ α).state = s := rfl

@[simp] theorem returns_done (a : α) (s : σ) : (done a s : Outcome ε σ α).Returns ↔ True := Iff.rfl

@[simp] theorem returns_halt (e : ε) (s : σ) : (halt e s : Outcome ε σ α).Returns ↔ False := Iff.rfl

@[simp] theorem andThen_done (a : α) (s : σ) (f : α → σ → Outcome ε σ β) :
    (done a s).andThen f = f a s := rfl

@[simp] theorem andThen_halt (e : ε) (s : σ) (f : α → σ → Outcome ε σ β) :
    (halt e s : Outcome ε σ α).andThen f = halt e s := rfl

/-- Look at the value and the state reached through functions. -/
def bimap {τ : Type} (g : α → β) (f : σ → τ) : Outcome ε σ α → Outcome ε τ β
  | done a s => done (g a) (f s)
  | halt e s => halt e (f s)

theorem bimap_andThen {τ : Type} {o : Outcome ε σ α} {c : γ} {g : α → β} {f : σ → τ} :
    (o.andThen fun a s ↦ .done (c, a) s).bimap (fun v ↦ g v.2) f = o.bimap g f := by
  cases o <;> rfl

theorem returns_iff {o : Outcome ε σ α} : o.Returns ↔ ∃ a s, o = done a s := by
  cases o with
  | done a s => simp
  | halt e s => simp

/-- A sequence returned exactly when its first part did and its second part did from there. -/
theorem andThen_eq_done_iff {o : Outcome ε σ α} {f : α → σ → Outcome ε σ β} {b : β} {s : σ} :
    o.andThen f = done b s ↔ ∃ a t, o = done a t ∧ f a t = done b s := by
  cases o with
  | done a t => exact ⟨fun h ↦ ⟨a, t, rfl, h⟩, fun ⟨_, _, h, hf⟩ ↦ by cases h; exact hf⟩
  | halt e t => simp

theorem returns_andThen_iff {o : Outcome ε σ α} {f : α → σ → Outcome ε σ β} :
    (o.andThen f).Returns ↔ ∃ a s, o = done a s ∧ (f a s).Returns := by
  cases o with
  | done a s => exact ⟨fun h ↦ ⟨a, s, rfl, h⟩, fun ⟨_, _, h, hf⟩ ↦ by cases h; exact hf⟩
  | halt e s => simp

/-- What holds of the state reached. -/
theorem exists_done_and_iff {o : Outcome ε σ α} {a : α} {s : σ} {P : σ → Prop} (h : o = done a s) :
    (∃ t, o = done a t ∧ P t) ↔ P s := by
  refine ⟨fun ⟨t, ht, hP⟩ ↦ ?_, fun hP ↦ ⟨s, h, hP⟩⟩
  rw [h] at ht
  cases ht
  exact hP

theorem Returns.andThen {o : Outcome ε σ α} {f : α → σ → Outcome ε σ β} (h : o.Returns)
    (hf : ∀ a s, (f a s).Returns) : (o.andThen f).Returns := by
  obtain ⟨a, s, rfl⟩ := returns_iff.1 h
  exact hf a s

theorem isSome_toOption_iff {o : Outcome ε σ α} : o.toOption.isSome ↔ o.Returns := by
  cases o <;> simp [toOption]

end Outcome

/-- A computation with environment `ρ`, halting reasons `ε`, state `σ` and values `α`. -/
def Halting (ρ ε σ α : Type) : Type := ρ → σ → Outcome ε σ α

namespace Halting

variable {ρ ε σ α β γ : Type}

instance : Monad (Halting ρ ε σ) where
  pure a := fun _ s ↦ .done a s
  bind x f := fun r s ↦ (x r s).andThen fun a t ↦ f a r t

@[simp] theorem pure_apply (a : α) (r : ρ) (s : σ) :
    (pure a : Halting ρ ε σ α) r s = .done a s := rfl

@[simp] theorem bind_apply (x : Halting ρ ε σ α) (f : α → Halting ρ ε σ β) (r : ρ) (s : σ) :
    (x >>= f) r s = (x r s).andThen fun a t ↦ f a r t := rfl

theorem bind_pure_eq (x : Halting ρ ε σ α) : x >>= pure = x := by
  funext r s
  rw [bind_apply]
  cases x r s <;> rfl

theorem bind_bind_eq (x : Halting ρ ε σ α) (f : α → Halting ρ ε σ β)
    (g : β → Halting ρ ε σ γ) : x >>= f >>= g = x >>= fun a ↦ f a >>= g := by
  funext r s
  simp only [bind_apply]
  cases x r s <;> rfl

instance : LawfulMonad (Halting ρ ε σ) :=
  LawfulMonad.mk' _ bind_pure_eq (fun _ _ ↦ rfl) bind_bind_eq

/-- The environment. -/
def ask : Halting ρ ε σ ρ := fun r s ↦ .done r s

/-- The state. -/
def get : Halting ρ ε σ σ := fun _ s ↦ .done s s

/-- Change the state. -/
def modify (f : σ → σ) : Halting ρ ε σ Unit := fun _ s ↦ .done () (f s)

/-- Stop for a reason. -/
def stop (e : ε) : Halting ρ ε σ α := fun _ s ↦ .halt e s

@[simp] theorem ask_apply (r : ρ) (s : σ) : (ask : Halting ρ ε σ ρ) r s = .done r s := rfl

@[simp] theorem get_apply (r : ρ) (s : σ) : (get : Halting ρ ε σ σ) r s = .done s s := rfl

@[simp] theorem modify_apply (f : σ → σ) (r : ρ) (s : σ) :
    (modify f : Halting ρ ε σ Unit) r s = .done () (f s) := rfl

@[simp] theorem stop_apply (e : ε) (r : ρ) (s : σ) :
    (stop e : Halting ρ ε σ α) r s = .halt e s := rfl

theorem ite_run (c : Prop) [Decidable c] (x y : Halting ρ ε σ α) (r : ρ) (s : σ) :
    (if c then x else y) r s = if c then x r s else y r s := by
  split <;> rfl

/-! ### One run: what a computation keeps -/

/-- One run relates the initial state to the state reached. -/
def Keeps (R : σ → σ → Prop) (x : Halting ρ ε σ α) : Prop := ∀ r s, R s (x r s).state

section Keeps

variable {R : σ → σ → Prop}

theorem keeps_pure [Std.Refl R] (a : α) : Keeps R (pure a : Halting ρ ε σ α) :=
  fun _ s ↦ refl_of R s

theorem keeps_ask [Std.Refl R] : Keeps R (ask : Halting ρ ε σ ρ) := fun _ s ↦ refl_of R s

theorem keeps_get [Std.Refl R] : Keeps R (get : Halting ρ ε σ σ) := fun _ s ↦ refl_of R s

theorem keeps_stop [Std.Refl R] (e : ε) : Keeps R (stop e : Halting ρ ε σ α) :=
  fun _ s ↦ refl_of R s

theorem keeps_modify {f : σ → σ} (h : ∀ s, R s (f s)) : Keeps R (modify f : Halting ρ ε σ Unit) :=
  fun _ s ↦ h s

/-- Sequencing: the preorder composes, and a halt of the first part ends the run there. -/
theorem Keeps.bind [IsTrans σ R] {x : Halting ρ ε σ α} {f : α → Halting ρ ε σ β}
    (hx : Keeps R x) (hf : ∀ a, Keeps R (f a)) : Keeps R (x >>= f) := by
  intro r s
  have h := hx r s
  rw [bind_apply]
  cases hxs : x r s with
  | done a t =>
    rw [hxs] at h
    exact trans_of R h (hf a r t)
  | halt e t =>
    rw [hxs] at h
    exact h

/-- Sequencing two relations: the second part runs where the first one returned. -/
theorem Keeps.comp {S T : σ → σ → Prop} {x : Halting ρ ε σ α} {f : α → Halting ρ ε σ β}
    (hx : Keeps R x) (hf : ∀ a, Keeps S (f a)) (hRT : ∀ s t, R s t → T s t)
    (hcomp : ∀ s t u, R s t → S t u → T s u) : Keeps T (x >>= f) := by
  intro r s
  have h := hx r s
  rw [bind_apply]
  cases hxs : x r s with
  | done a t =>
    rw [hxs] at h
    exact hcomp _ _ _ h (hf a r t)
  | halt e t =>
    rw [hxs] at h
    exact hRT _ _ h

theorem Keeps.ite {c : Prop} [Decidable c] {x y : Halting ρ ε σ α} (hx : Keeps R x)
    (hy : Keeps R y) : Keeps R (if c then x else y) := by
  split
  · exact hx
  · exact hy

theorem Keeps.mono {R' : σ → σ → Prop} {x : Halting ρ ε σ α} (hx : Keeps R x)
    (h : ∀ s t, R s t → R' s t) : Keeps R' x := fun r s ↦ h _ _ (hx r s)

end Keeps

/-! ### One run: what a computation yields -/

/-- Every value that is returned satisfies `P`. -/
def Yields (P : α → Prop) (x : Halting ρ ε σ α) : Prop := ∀ ⦃r s a t⦄, x r s = .done a t → P a

section Yields

variable {P : α → Prop}

theorem yields_pure {a : α} (h : P a) : Yields P (pure a : Halting ρ ε σ α) := by
  rintro r s b t ⟨⟩
  exact h

/-- Sequencing: the value is that of the second part. -/
theorem yields_bind {x : Halting ρ ε σ β} {f : β → Halting ρ ε σ α} (h : ∀ b, Yields P (f b)) :
    Yields P (x >>= f) := by
  intro r s a t hdone
  obtain ⟨b, u, -, hb⟩ := Outcome.andThen_eq_done_iff.1 hdone
  exact h b hb

theorem yields_stop (e : ε) : Yields P (stop e : Halting ρ ε σ α) := by
  rintro r s a t ⟨⟩

/-- Sequencing, with what the first part yields. -/
theorem Yields.bind {Q : β → Prop} {x : Halting ρ ε σ β} {f : β → Halting ρ ε σ α}
    (hx : Yields Q x) (h : ∀ b, Q b → Yields P (f b)) : Yields P (x >>= f) := by
  intro r s a t hdone
  obtain ⟨b, u, hb, ha⟩ := Outcome.andThen_eq_done_iff.1 hdone
  exact h b (hx hb) ha

theorem Yields.ite {c : Prop} [Decidable c] {x y : Halting ρ ε σ α} (hx : Yields P x)
    (hy : Yields P y) : Yields P (if c then x else y) := by
  split
  · exact hx
  · exact hy

end Yields

/-! ### One run: why a computation halts -/

/-- Every reason for which it halts satisfies `P`. -/
def Fails (P : ε → Prop) (x : Halting ρ ε σ α) : Prop := ∀ ⦃r s e t⦄, x r s = .halt e t → P e

section Fails

variable {P : ε → Prop}

theorem fails_pure (a : α) : Fails P (pure a : Halting ρ ε σ α) := by
  rintro r s e t ⟨⟩

theorem fails_ask : Fails P (ask : Halting ρ ε σ ρ) := by
  rintro r s e t ⟨⟩

theorem fails_get : Fails P (get : Halting ρ ε σ σ) := by
  rintro r s e t ⟨⟩

theorem fails_modify (f : σ → σ) : Fails P (modify f : Halting ρ ε σ Unit) := by
  rintro r s e t ⟨⟩

theorem fails_stop {e : ε} (h : P e) : Fails P (stop e : Halting ρ ε σ α) := by
  rintro r s e t ⟨⟩
  exact h

/-- Sequencing: a halt is one of the first part, or of the second where the first returned. -/
theorem Fails.bind {x : Halting ρ ε σ β} {f : β → Halting ρ ε σ α} (hx : Fails P x)
    (hf : ∀ b, Fails P (f b)) : Fails P (x >>= f) := by
  intro r s e t hhalt
  rw [bind_apply] at hhalt
  cases hxs : x r s with
  | done b u =>
    rw [hxs] at hhalt
    exact hf b hhalt
  | halt e' u =>
    rw [hxs] at hhalt
    cases hhalt
    exact hx hxs

theorem Fails.ite {c : Prop} [Decidable c] {x y : Halting ρ ε σ α} (hx : Fails P x)
    (hy : Fails P y) : Fails P (if c then x else y) := by
  split
  · exact hx
  · exact hy

end Fails

/-! ### Two runs in lockstep -/

/-- Two runs end alike: both return related values, or both halt for one reason, and the states they
reach are related. -/
inductive Alike (R : σ → σ → Prop) (S : α → β → Prop) : Outcome ε σ α → Outcome ε σ β → Prop
  | done {a : α} {b : β} {s t : σ} : S a b → R s t → Alike R S (.done a s) (.done b t)
  | halt {e : ε} {s t : σ} : R s t → Alike R S (.halt e s) (.halt e t)

/-- In environments related by `E`, and from states related by `R`, the two computations end
alike. -/
def Lockstep (E : ρ → ρ → Prop) (R : σ → σ → Prop) (S : α → β → Prop) (x : Halting ρ ε σ α)
    (y : Halting ρ ε σ β) : Prop :=
  ∀ ⦃r r' s s'⦄, E r r' → R s s' → Alike R S (x r s) (y r' s')

section Lockstep

variable {E : ρ → ρ → Prop} {R : σ → σ → Prop} {δ : Type}

theorem alike_refl [Std.Refl R] (o : Outcome ε σ α) : Alike R Eq o o := by
  cases o with
  | done a s => exact .done rfl (refl_of R s)
  | halt e s => exact .halt (refl_of R s)

theorem Alike.eq {o o' : Outcome ε σ α} (h : Alike Eq Eq o o') : o = o' := by
  cases h with
  | done hab hst => rw [hab, hst]
  | halt hst => rw [hst]

theorem Alike.state {S : α → β → Prop} {o : Outcome ε σ α} {o' : Outcome ε σ β}
    (h : Alike R S o o') : R o.state o'.state := by
  cases h with
  | done _ hst => exact hst
  | halt hst => exact hst

theorem Alike.mono {S T : α → β → Prop} {o : Outcome ε σ α} {o' : Outcome ε σ β}
    (h : Alike R S o o') (hST : ∀ a b, S a b → T a b) : Alike R T o o' := by
  cases h with
  | done hab hst => exact .done (hST _ _ hab) hst
  | halt hst => exact .halt hst

theorem Alike.mono_state {R' : σ → σ → Prop} {S : α → β → Prop} {o : Outcome ε σ α}
    {o' : Outcome ε σ β} (h : Alike R S o o') (hR : ∀ s s', R s s' → R' s s') :
    Alike R' S o o' := by
  cases h with
  | done hab hst => exact .done hab (hR _ _ hst)
  | halt hst => exact .halt (hR _ _ hst)

theorem Alike.andThen {S : α → β → Prop} {T : γ → δ → Prop} {o : Outcome ε σ α}
    {o' : Outcome ε σ β} {f : α → σ → Outcome ε σ γ} {g : β → σ → Outcome ε σ δ}
    (h : Alike R S o o') (hfg : ∀ a b s t, S a b → R s t → Alike R T (f a s) (g b t)) :
    Alike R T (o.andThen f) (o'.andThen g) := by
  cases h with
  | done hab hst => exact hfg _ _ _ _ hab hst
  | halt hst => exact .halt hst

theorem Lockstep.mono {S T : α → β → Prop} {x : Halting ρ ε σ α} {y : Halting ρ ε σ β}
    (h : Lockstep E R S x y) (hST : ∀ a b, S a b → T a b) : Lockstep E R T x y :=
  fun _ _ _ _ hE hR ↦ (h hE hR).mono hST

theorem lockstep_pure {S : α → β → Prop} {a : α} {b : β} (h : S a b) :
    Lockstep E R S (pure a : Halting ρ ε σ α) (pure b) := fun _ _ _ _ _ hR ↦ .done h hR

theorem lockstep_stop {S : α → β → Prop} (e : ε) :
    Lockstep E R S (stop e : Halting ρ ε σ α) (stop e) := fun _ _ _ _ _ hR ↦ .halt hR

/-- Sequencing: related first parts, and continuations that are in lockstep on related values. -/
theorem Lockstep.bind {S : α → β → Prop} {T : γ → δ → Prop} {x : Halting ρ ε σ α}
    {y : Halting ρ ε σ β} {f : α → Halting ρ ε σ γ} {g : β → Halting ρ ε σ δ}
    (hxy : Lockstep E R S x y) (hfg : ∀ a b, S a b → Lockstep E R T (f a) (g b)) :
    Lockstep E R T (x >>= f) (y >>= g) := fun _ _ _ _ hE hR ↦
  (hxy hE hR).andThen fun _ _ _ _ hab hst ↦ hfg _ _ hab hE hst

/-- Reading the environments, which are related. -/
theorem lockstep_ask_bind {S : α → β → Prop} {f : ρ → Halting ρ ε σ α} {g : ρ → Halting ρ ε σ β}
    (h : ∀ r r', E r r' → Lockstep E R S (f r) (g r')) :
    Lockstep E R S (ask >>= f) (ask >>= g) := fun r r' _ _ hE hR ↦ h r r' hE hE hR

theorem Lockstep.ite {S : α → β → Prop} {c c' : Prop} [Decidable c] [Decidable c']
    {x x' : Halting ρ ε σ α} {y y' : Halting ρ ε σ β} (hc : c ↔ c') (hxy : Lockstep E R S x y)
    (hxy' : Lockstep E R S x' y') :
    Lockstep E R S (if c then x else x') (if c' then y else y') := by
  by_cases h : c
  · rwa [if_pos h, if_pos (hc.1 h)]
  · rwa [if_neg h, if_neg (mt hc.2 h)]

end Lockstep

/-! ### What a computation does not look at -/

section Respects

variable {P : ρ → Prop} {R : σ → σ → Prop}

/-- In an environment that satisfies `P`, and from states related by `R`, the computation ends
alike: it looks at nothing in which the states differ. -/
abbrev Respects (P : ρ → Prop) (R : σ → σ → Prop) (x : Halting ρ ε σ α) : Prop :=
  Lockstep (fun r r' ↦ r' = r ∧ P r) R Eq x x

theorem respects_pure (a : α) : Respects P R (pure a : Halting ρ ε σ α) := lockstep_pure rfl

theorem respects_ask : Respects P R (ask : Halting ρ ε σ ρ) := by
  rintro _ r s s' ⟨rfl, -⟩ hR
  exact .done rfl hR

theorem respects_stop (e : ε) : Respects P R (stop e : Halting ρ ε σ α) := lockstep_stop e

/-- A change of the state that takes related states to related states. -/
theorem respects_modify {f : σ → σ} (h : ∀ s s', R s s' → R (f s) (f s')) :
    Respects P R (modify f : Halting ρ ε σ Unit) := fun _ _ s s' _ hR ↦ .done rfl (h s s' hR)

/-- Sequencing. -/
theorem Respects.bind {x : Halting ρ ε σ α} {f : α → Halting ρ ε σ β} (hx : Respects P R x)
    (hf : ∀ a, Respects P R (f a)) : Respects P R (x >>= f) := by
  refine Lockstep.bind hx ?_
  rintro a _ rfl
  exact hf a

/-- Reading the state, of which only what related states share may be used. -/
theorem respects_get_bind {f : σ → Halting ρ ε σ α} (hshared : ∀ s s', R s s' → f s' = f s)
    (hf : ∀ s, Respects P R (f s)) : Respects P R (get >>= f) := by
  intro r r' s s' hr hR
  rw [bind_apply, bind_apply, get_apply, get_apply, Outcome.andThen_done, Outcome.andThen_done,
    hshared s s' hR]
  exact hf s hr hR

theorem Respects.ite {c : Prop} [Decidable c] {x y : Halting ρ ε σ α} (hx : Respects P R x)
    (hy : Respects P R y) : Respects P R (if c then x else y) := Lockstep.ite Iff.rfl hx hy

end Respects

/-! ### Running inside a larger environment and state -/

variable {ρ' σ' : Type}

/-- Run `x` in the environment `env` computes, from the state `start`, and fold the state it
reaches back into the larger one. -/
def focus (env : ρ → σ → ρ') (start : σ') (back : σ' → σ → σ) (x : Halting ρ' ε σ' α) :
    Halting ρ ε σ α := fun r s ↦
  match x (env r s) start with
  | .done a t => .done a (back t s)
  | .halt e t => .halt e (back t s)

/-- A focused run changes the larger state by folding back, and in no other way. -/
theorem keeps_focus {R : σ → σ → Prop} {env : ρ → σ → ρ'} {start : σ'} {back : σ' → σ → σ}
    (x : Halting ρ' ε σ' α) (h : ∀ t s, R s (back t s)) : Keeps R (focus env start back x) := by
  intro r s
  unfold focus
  cases x (env r s) start <;> exact h _ _

/-- A focused run yields what the run it focuses on does. -/
theorem yields_focus {P : α → Prop} {env : ρ → σ → ρ'} {start : σ'} {back : σ' → σ → σ}
    {x : Halting ρ' ε σ' α} (h : Yields P x) : Yields P (focus env start back x) := by
  intro r s a t hdone
  unfold focus at hdone
  cases hx : x (env r s) start with
  | done b u =>
    rw [hx] at hdone
    cases hdone
    exact h hx
  | halt e u =>
    rw [hx] at hdone
    cases hdone

/-- A focused run halts for the reasons for which the run it focuses on does. -/
theorem fails_focus {P : ε → Prop} {env : ρ → σ → ρ'} {start : σ'} {back : σ' → σ → σ}
    {x : Halting ρ' ε σ' α} (h : Fails P x) : Fails P (focus env start back x) := by
  intro r s e t hhalt
  unfold focus at hhalt
  cases hx : x (env r s) start with
  | done b u =>
    rw [hx] at hhalt
    cases hhalt
  | halt e' u =>
    rw [hx] at hhalt
    cases hhalt
    exact h hx

/-- Focused runs are in lockstep where what they are focused on is related. -/
theorem lockstep_focus {E : ρ → ρ → Prop} {R : σ → σ → Prop} {E' : ρ' → ρ' → Prop}
    {R' : σ' → σ' → Prop} {S : α → β → Prop} {env : ρ → σ → ρ'} {start : σ'}
    {back : σ' → σ → σ} {x : Halting ρ' ε σ' α} {y : Halting ρ' ε σ' β}
    (hxy : Lockstep E' R' S x y) (henv : ∀ r r' s s', E r r' → R s s' → E' (env r s) (env r' s'))
    (hstart : R' start start)
    (hback : ∀ s s' t t', R s s' → R' t t' → R (back t s) (back t' s')) :
    Lockstep E R S (focus env start back x) (focus env start back y) := by
  intro r r' s s' hE hR
  have h := hxy (henv r r' s s' hE hR) hstart
  rw [focus, focus]
  generalize x (env r s) start = o at h
  generalize y (env r' s') start = o' at h
  cases h with
  | done hab htt => exact .done hab (hback _ _ _ _ hR htt)
  | halt htt => exact .halt (hback _ _ _ _ hR htt)

/-- A smaller environment in which related states show the same. -/
theorem respects_focus {P : ρ → Prop} {R : σ → σ → Prop} {env : ρ → σ → ρ'} {start : σ'}
    {back : σ' → σ → σ} {x : Halting ρ' ε σ' α} (henv : ∀ r s s', R s s' → env r s' = env r s)
    (hback : ∀ s s' t, R s s' → R (back t s) (back t s')) :
    Respects P R (focus env start back x) := by
  have hsame : Lockstep Eq Eq Eq x x := by
    rintro _ r _ s rfl rfl
    exact alike_refl _
  refine lockstep_focus hsame ?_ rfl ?_
  · rintro _ r s s' ⟨rfl, -⟩ hR
    exact (henv r s s' hR).symm
  · rintro s s' t _ hR rfl
    exact hback s s' t hR

/-! ### Judgements -/

/-- A judgement on computations that has the rules for values, the environment and sequencing. It
holds of a computation if it holds of the rest that this one is put together from. -/
structure Compositional (J : ∀ α : Type, Halting ρ ε σ α → Prop) : Prop where
  pure : ∀ {α : Type} (a : α), J α (pure a)
  ask : J ρ ask
  bind : ∀ {α β : Type} {x : Halting ρ ε σ α} {f : α → Halting ρ ε σ β},
    J α x → (∀ a, J β (f a)) → J β (x >>= f)

theorem Compositional.ite {J : ∀ α : Type, Halting ρ ε σ α → Prop} (_ : Compositional J)
    {c : Prop} [Decidable c] {x y : Halting ρ ε σ α} (hx : J α x) (hy : J α y) :
    J α (if c then x else y) := by
  split
  · exact hx
  · exact hy

theorem compositional_keeps (R : σ → σ → Prop) [Std.Refl R] [IsTrans σ R] :
    Compositional fun _ (x : Halting ρ ε σ _) ↦ Keeps R x where
  pure := keeps_pure
  ask := keeps_ask
  bind := Keeps.bind

theorem compositional_fails (P : ε → Prop) :
    Compositional fun _ (x : Halting ρ ε σ _) ↦ Fails P x where
  pure := fails_pure
  ask := fails_ask
  bind := Fails.bind

theorem compositional_respects (P : ρ → Prop) (R : σ → σ → Prop) :
    Compositional fun _ (x : Halting ρ ε σ _) ↦ Respects P R x where
  pure := respects_pure
  ask := respects_ask
  bind := Respects.bind

end Halting
