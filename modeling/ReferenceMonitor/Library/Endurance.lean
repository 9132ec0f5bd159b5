import ReferenceMonitor.Library.Logs

/-!
# When a computation returns

Two judgements give the condition on which a computation returns, and not only one that is enough.

* `ReturnsIff r P x`: in the environment `r`, and from whatever state, `x` returns exactly where `P`
  holds. Code that only reads is of this kind.
* `Endures log ok I r P x`: from a state with `I`, `x` returns exactly where `P` holds and every
  entry it has made in its log was `ok` when it was made. An entry is a question to something
  outside, and `ok` is about the answer; so the condition is in two parts, one that is there
  beforehand and one that is up to others.

`P` stays outside the computation, and in sequencing the conditions are joined.
-/

variable {κ : Type}

/-- Each of the entries `new`, the newest of them first, was `ok` when it was made on top of
`before`. -/
def Approved (ok : List κ → Prop) (before : List κ) : List κ → Prop
  | [] => True
  | k :: new => ok (k :: (new ++ before)) ∧ Approved ok before new

section Approved

variable {ok : List κ → Prop} {before : List κ}

theorem approved_singleton {k : κ} : Approved ok before [k] ↔ ok (k :: before) :=
  and_iff_left trivial

/-- What came later was made on top of what came before it. -/
theorem approved_append {new later : List κ} :
    Approved ok before (later ++ new) ↔
      Approved ok before new ∧ Approved ok (new ++ before) later := by
  induction later with
  | nil => exact (and_iff_left trivial).symm
  | cons k later ih =>
    rw [List.cons_append, Approved, Approved, ih, List.append_assoc]
    exact and_left_comm

end Approved

namespace Halting

variable {ρ ε σ α β : Type}

/-! ### Whatever the state -/

/-- In the environment `r`, it returns exactly where `P` holds. -/
def ReturnsIff (r : ρ) (P : Prop) (x : Halting ρ ε σ α) : Prop := ∀ s, (x r s).Returns ↔ P

section ReturnsIff

variable {r : ρ} {P Q : Prop} {x : Halting ρ ε σ α} {f : α → Halting ρ ε σ β}

theorem returnsIff_pure (a : α) : ReturnsIff r True (pure a : Halting ρ ε σ α) := fun _ ↦ Iff.rfl

theorem returnsIff_stop (e : ε) : ReturnsIff r False (stop e : Halting ρ ε σ α) := fun _ ↦ Iff.rfl

theorem returnsIff_modify (g : σ → σ) : ReturnsIff r True (modify g : Halting ρ ε σ Unit) :=
  fun _ ↦ Iff.rfl

theorem ReturnsIff.congr (hx : ReturnsIff r P x) (h : P ↔ Q) : ReturnsIff r Q x :=
  fun s ↦ (hx s).trans h

/-- Sequencing: the second part runs on what the first one returned. -/
theorem ReturnsIff.bind (hx : ReturnsIff r P x)
    (hf : ∀ a s t, x r s = .done a t → ReturnsIff r Q (f a)) : ReturnsIff r (P ∧ Q) (x >>= f) := by
  intro s
  rw [bind_apply, ← hx s]
  cases hxs : x r s with
  | done a t => exact (hf a s t hxs t).trans (and_iff_right trivial).symm
  | halt e t => exact iff_of_false id And.left

/-- What follows always returns. -/
theorem ReturnsIff.bind_true (hx : ReturnsIff r P x) (hf : ∀ a, ReturnsIff r True (f a)) :
    ReturnsIff r P (x >>= f) := (hx.bind fun a _ _ _ ↦ hf a).congr (and_iff_left trivial)

/-- What comes first always returns. -/
theorem ReturnsIff.true_bind (hx : ReturnsIff r True x) (hf : ∀ a, ReturnsIff r P (f a)) :
    ReturnsIff r P (x >>= f) := (hx.bind fun a _ _ _ ↦ hf a).congr (and_iff_right trivial)

theorem ReturnsIff.bind_pure (hx : ReturnsIff r P x) (g : α → β) :
    ReturnsIff r P (x >>= fun a ↦ pure (g a)) :=
  hx.bind_true fun _ ↦ returnsIff_pure _

theorem returnsIff_ask_bind {f : ρ → Halting ρ ε σ α} (h : ReturnsIff r P (f r)) :
    ReturnsIff r P (ask >>= f) := h

theorem ReturnsIff.ite {c : Prop} [Decidable c] {y : Halting ρ ε σ α} (hx : c → ReturnsIff r P x)
    (hy : ¬ c → ReturnsIff r Q y) : ReturnsIff r (if c then P else Q) (if c then x else y) := by
  split
  · exact hx ‹_›
  · exact hy ‹_›

end ReturnsIff

/-! ### With a log -/

/-- In the environment `r`, and from a state with `I`, it returns exactly where `P` holds and each
of the entries it has made in the log was `ok`. -/
def Endures (log : σ → List κ) (ok : List κ → Prop) (I : σ → Prop) (r : ρ) (P : Prop)
    (x : Halting ρ ε σ α) : Prop :=
  ∀ s, I s → I (x r s).state ∧ ∃ new, log (x r s).state = new ++ log s ∧
    ((x r s).Returns ↔ P ∧ Approved ok (log s) new)

section Endures

variable {log : σ → List κ} {ok : List κ → Prop} {I : σ → Prop} {r : ρ} {P Q : Prop}
  {x : Halting ρ ε σ α} {f : α → Halting ρ ε σ β}

/-- A computation that makes no entry. -/
theorem endures_of_sameLog (h : ∀ s, I s → I (x r s).state ∧ log (x r s).state = log s ∧
    ((x r s).Returns ↔ P)) : Endures log ok I r P x := fun s hs ↦
  ⟨(h s hs).1, [], (h s hs).2.1, (h s hs).2.2.trans (and_iff_left trivial).symm⟩

theorem endures_pure (a : α) : Endures log ok I r True (pure a : Halting ρ ε σ α) :=
  endures_of_sameLog fun _ hs ↦ ⟨hs, rfl, Iff.rfl⟩

theorem endures_ask : Endures log ok I r True (ask : Halting ρ ε σ ρ) :=
  endures_of_sameLog fun _ hs ↦ ⟨hs, rfl, Iff.rfl⟩

/-- A change of the state that keeps `I` and the log. -/
theorem endures_modify {g : σ → σ} (hI : ∀ s, I s → I (g s)) (hlog : ∀ s, log (g s) = log s) :
    Endures log ok I r True (modify g : Halting ρ ε σ Unit) :=
  endures_of_sameLog fun s hs ↦ ⟨hI s hs, hlog s, Iff.rfl⟩

theorem Endures.congr (hx : Endures log ok I r P x) (h : P ↔ Q) : Endures log ok I r Q x := by
  intro s hs
  obtain ⟨hI, new, hlog, hret⟩ := hx s hs
  exact ⟨hI, new, hlog, hret.trans (and_congr_left fun _ ↦ h)⟩

/-- Sequencing, with what the first part returned: the entries of both parts are in the log where
both have run, and those of the first one where it halted. -/
theorem Endures.bind_done (hx : Endures log ok I r P x)
    (hf : ∀ a s t, I s → x r s = .done a t → Endures log ok I r Q (f a)) :
    Endures log ok I r (P ∧ Q) (x >>= f) := by
  intro s hs
  obtain ⟨hI, new, hlog, hret⟩ := hx s hs
  rw [bind_apply]
  cases hxs : x r s with
  | done a t =>
    rw [hxs] at hI hlog hret
    obtain ⟨hI', later, hlog', hret'⟩ := hf a s t hs hxs t hI
    have hbefore : P ∧ Approved ok (log s) new := hret.1 trivial
    refine ⟨hI', later ++ new, ?_, hret'.trans ?_⟩
    · rw [Outcome.andThen_done, hlog', show log t = _ from hlog, List.append_assoc]
    · rw [show log t = _ from hlog, approved_append, and_iff_right hbefore.2,
        and_iff_right hbefore.1]
  | halt e t =>
    rw [hxs] at hI hlog hret
    exact ⟨hI, new, hlog, iff_of_false id fun h ↦ hret.2 ⟨h.1.1, h.2⟩⟩

theorem Endures.bind (hx : Endures log ok I r P x) (hf : ∀ a, Endures log ok I r Q (f a)) :
    Endures log ok I r (P ∧ Q) (x >>= f) := hx.bind_done fun a _ _ _ _ ↦ hf a

/-- What follows always returns. -/
theorem Endures.bind_true (hx : Endures log ok I r P x)
    (hf : ∀ a, Endures log ok I r True (f a)) : Endures log ok I r P (x >>= f) :=
  (hx.bind hf).congr (and_iff_left trivial)

/-- What comes first always returns. -/
theorem Endures.true_bind (hx : Endures log ok I r True x)
    (hf : ∀ a, Endures log ok I r P (f a)) : Endures log ok I r P (x >>= f) :=
  (hx.bind hf).congr (and_iff_right trivial)

theorem Endures.ite {c : Prop} [Decidable c] {y : Halting ρ ε σ α} (hx : Endures log ok I r P x)
    (hy : Endures log ok I r P y) : Endures log ok I r P (if c then x else y) := by
  split
  · exact hx
  · exact hy

end Endures

end Halting
