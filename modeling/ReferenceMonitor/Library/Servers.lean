import Mathlib.Data.List.Basic

/-!
# Machines that answer requests

A `Server` answers one request after another and changes its state on the way. Its client sees none
of the states: to the client a server is a function of the requests it has sent so far, newest
first. `Answers` says that such a function is what a machine answers, and `after` gives back the
state a history has led to.
-/

/-- A machine that takes a request to its next state and an answer. -/
structure Server (σ ι ο : Type) where
  /-- One request. -/
  serve : σ → ι → σ × ο

namespace Server

variable {σ ι ο : Type} (S : Server σ ι ο)

/-- The state after a history of requests, newest first. -/
def after (s : σ) : List ι → σ
  | [] => s
  | r :: past => (S.serve (after s past) r).1

@[simp] theorem after_nil (s : σ) : S.after s [] = s := rfl

@[simp] theorem after_cons (s : σ) (r : ι) (past : List ι) :
    S.after s (r :: past) = (S.serve (S.after s past) r).1 := rfl

/-- A history that continues another. -/
theorem after_append (s : σ) (rs past : List ι) :
    S.after s (rs ++ past) = S.after (S.after s past) rs := by
  induction rs with
  | nil => rfl
  | cons r rs ih => rw [List.cons_append, after_cons, after_cons, ih]

/-- The function answers the newest request of a history as the machine does, started in `s`. -/
def Answers (s : σ) (f : List ι → ο) : Prop :=
  ∀ r past, f (r :: past) = (S.serve (S.after s past) r).2

/-- What the machine answers; `o` where nothing was asked. -/
def answerer (s : σ) (o : ο) : List ι → ο
  | [] => o
  | r :: past => (S.serve (S.after s past) r).2

theorem answers_answerer (s : σ) (o : ο) : S.Answers s (S.answerer s o) := fun _ _ ↦ rfl

end Server
