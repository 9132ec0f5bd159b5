import Mathlib.Data.List.TakeWhile

/-!
# The lines of a text

A text is a list of characters, one of which ends a line. `Text.linesOf` splits a text into its
lines, each with its end; only the last line may lack it. A list of lines is the one a text splits
into exactly where it has this form (`Text.IsText`), which removing a line keeps.
-/

namespace Text

variable {α : Type*}

/-- A line with its end. -/
def Ended (nl : α) (line : List α) : Prop := ∃ body, nl ∉ body ∧ line = body ++ [nl]

/-- The lines of a text: all of them ended, but for the last. -/
inductive IsText (nl : α) : List (List α) → Prop
  | nil : IsText nl []
  | last {line : List α} (hne : line ≠ []) (hnl : nl ∉ line) : IsText nl [line]
  | cons {line : List α} {lines : List (List α)} (h : Ended nl line) (hl : IsText nl lines) :
      IsText nl (line :: lines)

variable [DecidableEq α] {nl : α}

/-- The lines of a text, each with its end. -/
def linesOf (nl : α) : List α → List (List α)
  | [] => []
  | c :: text =>
    if c = nl then [c] :: linesOf nl text
    else
      match linesOf nl text with
      | [] => [[c]]
      | line :: lines => (c :: line) :: lines

/-- A line without its end. -/
def body (nl : α) (line : List α) : List α := line.takeWhile (· ≠ nl)

theorem linesOf_cons_end (text : List α) : linesOf nl (nl :: text) = [nl] :: linesOf nl text :=
  if_pos rfl

theorem linesOf_cons_of_ne {c : α} (h : c ≠ nl) (text : List α) :
    linesOf nl (c :: text) =
      match linesOf nl text with
      | [] => [[c]]
      | line :: lines => (c :: line) :: lines := if_neg h

/-- An ended line in front of a text is its first line. -/
theorem linesOf_ended_append {line : List α} (h : Ended nl line) (text : List α) :
    linesOf nl (line ++ text) = line :: linesOf nl text := by
  obtain ⟨body, hbody, rfl⟩ := h
  induction body with
  | nil => exact linesOf_cons_end text
  | cons c body ih =>
    rw [List.mem_cons, not_or] at hbody
    rw [List.cons_append, List.cons_append, linesOf_cons_of_ne (Ne.symm hbody.1), ih hbody.2]

/-- A text without an end of line is one line. -/
theorem linesOf_of_not_mem {line : List α} (hne : line ≠ []) (hnl : nl ∉ line) :
    linesOf nl line = [line] := by
  induction line with
  | nil => exact absurd rfl hne
  | cons c line ih =>
    rw [List.mem_cons, not_or] at hnl
    rw [linesOf_cons_of_ne (Ne.symm hnl.1)]
    cases line with
    | nil => rfl
    | cons d line => rw [ih (List.cons_ne_nil _ _) hnl.2]

/-- The lines of a text have the form that they should. -/
theorem isText_linesOf (nl : α) (text : List α) : IsText nl (linesOf nl text) := by
  induction text with
  | nil => exact .nil
  | cons c text ih =>
    by_cases hc : c = nl
    · rw [hc, linesOf_cons_end]
      exact .cons ⟨[], List.not_mem_nil, rfl⟩ ih
    · rw [linesOf_cons_of_ne hc]
      generalize linesOf nl text = lines at ih
      cases ih with
      | nil => exact .last (List.cons_ne_nil _ _) (by simpa using Ne.symm hc)
      | last hne hnl =>
        exact .last (List.cons_ne_nil _ _) (by simpa using ⟨Ne.symm hc, hnl⟩)
      | cons h hl =>
        obtain ⟨body, hbody, rfl⟩ := h
        exact .cons ⟨c :: body, by simpa using ⟨Ne.symm hc, hbody⟩, rfl⟩ hl

theorem flatten_linesOf (nl : α) (text : List α) : (linesOf nl text).flatten = text := by
  induction text with
  | nil => rfl
  | cons c text ih =>
    by_cases hc : c = nl
    · rw [hc, linesOf_cons_end, List.flatten_cons, ih]
      rfl
    · rw [linesOf_cons_of_ne hc]
      cases hlines : linesOf nl text with
      | nil =>
        rw [hlines] at ih
        rw [← ih]
        rfl
      | cons line lines =>
        rw [hlines] at ih
        rw [← ih]
        rfl

/-- Lines of this form are the lines of the text they make up. -/
theorem linesOf_flatten {lines : List (List α)} (h : IsText nl lines) :
    linesOf nl lines.flatten = lines := by
  induction h with
  | nil => rfl
  | last hne hnl => rw [List.flatten_singleton, linesOf_of_not_mem hne hnl]
  | cons h _ ih => rw [List.flatten_cons, linesOf_ended_append h, ih]

omit [DecidableEq α] in
/-- A line may be removed. -/
theorem IsText.remove {pre post : List (List α)} {line : List α}
    (h : IsText nl (pre ++ line :: post)) : IsText nl (pre ++ post) := by
  induction pre with
  | nil =>
    cases h with
    | last => exact .nil
    | cons _ hl => exact hl
  | cons first pre ih =>
    rw [List.cons_append] at h
    generalize hlines : pre ++ line :: post = lines at h
    cases h with
    | last => simp at hlines
    | cons hfirst hl => exact .cons hfirst (ih (hlines ▸ hl))

omit [DecidableEq α] in
/-- A line is ended, or has no end in it. -/
theorem IsText.ended_or {lines : List (List α)} (h : IsText nl lines) {line : List α}
    (hmem : line ∈ lines) : Ended nl line ∨ line ≠ [] ∧ nl ∉ line := by
  induction h with
  | nil => exact absurd hmem List.not_mem_nil
  | last hne hnl =>
    rw [List.mem_singleton.1 hmem]
    exact .inr ⟨hne, hnl⟩
  | cons h _ ih =>
    rcases List.mem_cons.1 hmem with rfl | hmem
    · exact .inl h
    · exact ih hmem

/-- Behind its end nothing matters. -/
theorem body_append {text : List α} (h : nl ∉ text) (rest : List α) :
    body nl (text ++ nl :: rest) = text := by
  rw [body, List.takeWhile_append_of_pos]
  · simp
  · intro c hc
    simpa using ne_of_mem_of_not_mem hc h

theorem body_concat {text : List α} (h : nl ∉ text) : body nl (text ++ [nl]) = text :=
  body_append h []

theorem body_append_of_mem {text : List α} (h : nl ∈ text) (rest : List α) :
    body nl (text ++ rest) = body nl text := by
  obtain ⟨before, after, rfl, hbefore⟩ := List.eq_append_cons_of_mem h
  rw [List.append_assoc, List.cons_append, body_append hbefore, body_append hbefore]

theorem body_of_not_mem {text : List α} (h : nl ∉ text) : body nl text = text :=
  List.takeWhile_eq_self_iff.2 fun c hc ↦ by simpa using ne_of_mem_of_not_mem hc h

/-- A line is its text, with or without an end. -/
theorem IsText.eq_body_or {lines : List (List α)} (h : IsText nl lines) {line : List α}
    (hmem : line ∈ lines) :
    nl ∉ body nl line ∧ (line = body nl line ++ [nl] ∨ line = body nl line) := by
  rcases h.ended_or hmem with ⟨text, htext, rfl⟩ | ⟨-, hnl⟩
  · rw [body_concat htext]
    exact ⟨htext, .inl rfl⟩
  · rw [body_of_not_mem hnl]
    exact ⟨hnl, .inr rfl⟩

end Text
