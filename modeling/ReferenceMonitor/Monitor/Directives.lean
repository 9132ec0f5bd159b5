import Mathlib.Data.List.Nodup
import ReferenceMonitor.Library.Lines
import ReferenceMonitor.Monitor.Config

/-!
# What `load_config` makes of a file

`fgets` reads a line in one piece if the line fits the buffer, and in several otherwise, so that the
pieces of a file are the pieces of its lines, one line after another (`pieces_eq_flatMap`).

The loop is described by the pieces that are directives. It goes through exactly where no entry of
`monitor_actions` is used twice (`Accepted`), and then an entry holds the last of the three actions
named by a directive up to its own (`lastOwn`): a value that is none of them takes over what the
directives before it have left.
-/

namespace ReferenceMonitor

/-! ### Pieces and lines -/

theorem fgets_nil (n : ℕ) : fgets n [] = ([], []) := by cases n <;> rfl

theorem fgets_append (n : ℕ) (file : List Char) : (fgets n file).1 ++ (fgets n file).2 = file := by
  induction file generalizing n with
  | nil => rw [fgets_nil]; rfl
  | cons c file ih =>
    cases n with
    | zero => rfl
    | succ n =>
      rw [fgets]
      split
      · rfl
      · dsimp only
        rw [List.cons_append, ih]

/-- A line that the buffer takes is read with its end. -/
theorem fgets_of_lt {n : ℕ} {text : List Char} (h : '\n' ∉ text) (hlen : text.length < n)
    (rest : List Char) : fgets n (text ++ '\n' :: rest) = (text ++ ['\n'], rest) := by
  induction text generalizing n with
  | nil =>
    obtain ⟨n, rfl⟩ := Nat.exists_eq_add_of_lt hlen
    exact if_pos rfl
  | cons c text ih =>
    rw [List.mem_cons, not_or] at h
    obtain _ | n := n
    · exact absurd hlen (Nat.not_lt_zero _)
    rw [List.cons_append, fgets, if_neg (Ne.symm h.1), ih h.2 (Nat.lt_of_succ_lt_succ hlen)]
    rfl

/-- Of a longer one the buffer is filled. -/
theorem fgets_of_le {n : ℕ} {text : List Char} (h : '\n' ∉ text) (hlen : n ≤ text.length)
    (rest : List Char) : fgets n (text ++ rest) = (text.take n, text.drop n ++ rest) := by
  induction text generalizing n with
  | nil =>
    obtain rfl := Nat.le_zero.1 hlen
    cases rest <;> rfl
  | cons c text ih =>
    rw [List.mem_cons, not_or] at h
    cases n with
    | zero => rfl
    | succ n =>
      rw [List.cons_append, fgets, if_neg (Ne.symm h.1), ih h.2 (Nat.le_of_succ_le_succ hlen)]
      rfl

theorem fgets_of_not_mem {n : ℕ} {text : List Char} (h : '\n' ∉ text) (hlen : text.length ≤ n) :
    fgets n text = (text, []) := by
  induction text generalizing n with
  | nil => exact fgets_nil n
  | cons c text ih =>
    rw [List.mem_cons, not_or] at h
    obtain _ | n := n
    · exact absurd hlen (Nat.not_succ_le_zero _)
    rw [fgets, if_neg (Ne.symm h.1), ih h.2 (Nat.le_of_succ_le_succ hlen)]

/-- A round takes something. -/
theorem length_fgets_lt (c : Char) (file : List Char) :
    (fgets 99 (c :: file)).2.length < (c :: file).length := by
  have hlen := congrArg List.length (fgets_append 99 (c :: file))
  have hpos : 0 < (fgets 99 (c :: file)).1.length := by
    rw [fgets]
    split <;> exact Nat.succ_pos _
  rw [List.length_append] at hlen
  omega

/-- The number of rounds is only a bound. -/
theorem piecesLoop_eq {rounds : ℕ} {file : List Char} (h : file.length ≤ rounds) :
    piecesLoop rounds file = pieces file := by
  have hloop (rounds rounds' : ℕ) (file : List Char) (h : file.length ≤ rounds)
      (h' : file.length ≤ rounds') : piecesLoop rounds file = piecesLoop rounds' file := by
    induction rounds generalizing rounds' file with
    | zero =>
      obtain rfl := List.length_eq_zero_iff.1 (Nat.le_zero.1 h)
      cases rounds' <;> rfl
    | succ rounds ih =>
      cases file with
      | nil => cases rounds' <;> rfl
      | cons c file =>
        obtain _ | rounds' := rounds'
        · exact absurd h' (Nat.not_succ_le_zero _)
        have hlt := length_fgets_lt c file
        exact congrArg (List.cons _) (ih rounds' (fgets 99 (c :: file)).2 (by omega) (by omega))
  exact hloop rounds file.length file h (le_refl _)

theorem pieces_nil : pieces [] = [] := rfl

theorem pieces_of_ne_nil {file : List Char} (h : file ≠ []) :
    pieces file = (fgets 99 file).1 :: pieces (fgets 99 file).2 := by
  cases file with
  | nil => exact absurd rfl h
  | cons c file =>
    have hlt := length_fgets_lt c file
    rw [← piecesLoop_eq (Nat.le_of_lt_succ hlt)]
    rfl

/-- A line that fits the buffer is one piece. -/
theorem pieces_ended_of_lt {text : List Char} (h : '\n' ∉ text) (hlen : text.length ≤ 98)
    (rest : List Char) : pieces (text ++ '\n' :: rest) = (text ++ ['\n']) :: pieces rest := by
  rw [pieces_of_ne_nil (by simp), fgets_of_lt h (by omega)]

/-- A longer one goes on in the next piece. -/
theorem pieces_ended_of_le {text : List Char} (h : '\n' ∉ text) (hlen : 99 ≤ text.length)
    (rest : List Char) :
    pieces (text ++ '\n' :: rest) =
      text.take 99 :: pieces (text.drop 99 ++ '\n' :: rest) := by
  rw [pieces_of_ne_nil (by simp), fgets_of_le h hlen]

/-- The pieces of an ended line come first. -/
theorem pieces_ended_append {line : List Char} (h : Text.Ended '\n' line) (rest : List Char) :
    pieces (line ++ rest) = pieces line ++ pieces rest := by
  obtain ⟨text, htext, rfl⟩ := h
  rw [List.append_assoc, List.singleton_append]
  induction hn : text.length using Nat.strong_induction_on generalizing text with
  | _ n ih =>
    obtain hlt | hge := Nat.lt_or_ge text.length 99
    · rw [pieces_ended_of_lt htext (by omega), pieces_ended_of_lt htext (by omega), pieces_nil]
      rfl
    · rw [pieces_ended_of_le htext hge, pieces_ended_of_le htext hge, List.cons_append,
        ih (text.drop 99).length (by rw [List.length_drop]; omega) (text.drop 99)
          (fun hmem ↦ htext (List.mem_of_mem_drop hmem)) rfl]

/-- **The pieces of a file** are those of its lines. -/
theorem pieces_flatten {lines : List (List Char)} (h : Text.IsText '\n' lines) :
    pieces lines.flatten = lines.flatMap pieces := by
  induction h with
  | nil => rfl
  | last => rw [List.flatten_singleton, List.flatMap_singleton]
  | cons h _ ih => rw [List.flatten_cons, pieces_ended_append h, ih, List.flatMap_cons]

theorem pieces_eq_flatMap (file : List Char) :
    pieces file = (Text.linesOf '\n' file).flatMap pieces := by
  rw [← pieces_flatten (Text.isText_linesOf '\n' file), Text.flatten_linesOf]

/-- A file of lines that fit the buffer. -/
def ShortLines (file : List Char) : Prop :=
  ∀ line ∈ Text.linesOf '\n' file, (Text.body '\n' line).length ≤ 98

instance (file : List Char) : Decidable (ShortLines file) :=
  inferInstanceAs (Decidable (∀ line ∈ _, _))

/-- Its pieces are its lines. -/
theorem pieces_of_shortLines {file : List Char} (h : ShortLines file) :
    pieces file = Text.linesOf '\n' file := by
  have hline : ∀ line ∈ Text.linesOf '\n' file, pieces line = [line] := fun line hmem ↦ by
    have hlen := h line hmem
    rcases (Text.isText_linesOf '\n' file).ended_or hmem with ⟨text, htext, rfl⟩ | ⟨hne, hnl⟩
    · rw [Text.body_concat htext] at hlen
      exact pieces_ended_of_lt htext hlen []
    · rw [Text.body_of_not_mem hnl] at hlen
      rw [pieces_of_ne_nil hne, fgets_of_not_mem hnl (by omega)]
      rfl
  rw [pieces_eq_flatMap, List.flatMap_def, List.map_congr_left hline, ← List.flatMap_def,
    List.flatMap_singleton']

/-! ### The numbers of names -/

/-- The key is the name of a call. -/
def KnownName (name : List Char) : Prop := ∃ s ∈ syscallNames, s.toList = name

instance (name : List Char) : Decidable (KnownName name) :=
  inferInstanceAs (Decidable (∃ s ∈ syscallNames, s.toList = name))

theorem getSyscallNum_of_known {name : List Char} (h : KnownName name) :
    ∃ (i : ℕ) (hi : i < syscallNames.length),
      getSyscallNum name = i ∧ (syscallNames.get ⟨i, hi⟩).toList = name := by
  obtain ⟨s, hs, hname⟩ := h
  cases hf : syscallNames.findIdx? fun s ↦ s.toList = name with
  | none =>
    have := List.findIdx?_eq_none_iff.1 hf s hs
    simp [hname] at this
  | some i =>
    obtain ⟨hi, hget, -⟩ := List.findIdx?_eq_some_iff_getElem.1 hf
    refine ⟨i, hi, by rw [getSyscallNum, hf], ?_⟩
    simpa using hget

theorem getSyscallNum_of_not_known {name : List Char} (h : ¬ KnownName name) :
    getSyscallNum name = -1 := by
  cases hf : syscallNames.findIdx? fun s ↦ s.toList = name with
  | none => rw [getSyscallNum, hf]
  | some i =>
    obtain ⟨hi, hget, -⟩ := List.findIdx?_eq_some_iff_getElem.1 hf
    exact absurd ⟨_, List.getElem_mem hi, by simpa using hget⟩ h

/-- The number of a key lies in the table exactly where the key is a name. -/
theorem inTable_getSyscallNum_iff {name : List Char} :
    InTable (getSyscallNum name) ↔ KnownName name := by
  by_cases h : KnownName name
  · obtain ⟨i, hi, hnum, -⟩ := getSyscallNum_of_known h
    rw [hnum]
    exact iff_of_true ⟨by omega, by rw [TOTAL_SYSCALLS]; omega⟩ h
  · rw [getSyscallNum_of_not_known h]
    exact iff_of_false (fun hin ↦ by have := hin.1; omega) h

/-- Different names have different numbers. -/
theorem getSyscallNum_inj {name name' : List Char} (h : KnownName name) (h' : KnownName name') :
    getSyscallNum name = getSyscallNum name' ↔ name = name' := by
  refine ⟨fun heq ↦ ?_, fun heq ↦ by rw [heq]⟩
  obtain ⟨i, hi, hnum, hget⟩ := getSyscallNum_of_known h
  obtain ⟨i', hi', hnum', hget'⟩ := getSyscallNum_of_known h'
  obtain rfl : i = i' := by omega
  rw [← hget, hget']

/-! ### The directives among some pieces -/

theorem directive_key (buff : List Char) :
    (directive buff).map Prod.fst =
      if buff.head? = some '\n' ∨ buff.head? = some '#' ∨ '=' ∉ Text.body '\x00' buff then none
      else some (Text.body '=' (Text.body '\x00' buff)) := by
  unfold directive
  dsimp only [Text.body]
  split_ifs <;> simp_all

/-- The first `=` ends the key. -/
theorem directive_of_eq {buff key value : List Char} (hnl : buff.head? ≠ some '\n')
    (hhash : buff.head? ≠ some '#') (hkey : '=' ∉ key)
    (hbuff : Text.body '\x00' buff = key ++ '=' :: value) :
    directive buff = some (key, value) := by
  have hstr : buff.takeWhile (· ≠ '\x00') = key ++ '=' :: value := hbuff
  have htake : (key ++ '=' :: value).takeWhile (· ≠ '=') = key := Text.body_append hkey value
  have hdrop : (key ++ '=' :: value).dropWhile (· ≠ '=') = '=' :: value := by
    rw [List.dropWhile_append_of_pos]
    · simp
    · intro c hc
      simpa using ne_of_mem_of_not_mem hc hkey
  rw [directive, if_neg (not_or.2 ⟨hnl, hhash⟩), hstr]
  dsimp only
  rw [if_pos (List.mem_append_right _ List.mem_cons_self), htake, hdrop]
  rfl

/-- The keys of the directives among some pieces. -/
def keysOf (buffs : List (List Char)) : List (List Char) :=
  buffs.filterMap fun buff ↦ (directive buff).map Prod.fst

/-- The numbers of their keys. -/
def numbersOf (buffs : List (List Char)) : List ℤ := (keysOf buffs).map getSyscallNum

/-- The action a value names; a value that does ends with its line. -/
def ownAction (value : List Char) : Option ℤ :=
  if value = "ALLOW_LIND\n".toList then some ALLOW_LIND
  else if value = "DENY_LIND\n".toList then some DENY_LIND
  else if value = "ALLOW_OS\n".toList then some ALLOW_OS
  else none

/-- The actions that directives among the pieces name. -/
def ownActions (buffs : List (List Char)) : List ℤ :=
  buffs.filterMap fun buff ↦ (directive buff).bind fun d ↦ ownAction d.2

/-- The last of them. -/
def lastOwn (buffs : List (List Char)) : Option ℤ := (ownActions buffs).getLast?

/-- No entry of the table is used twice, nor one that is not empty. -/
def Accepted (actions : Actions) (buffs : List (List Char)) : Prop :=
  (numbersOf buffs).Nodup ∧ ∀ n ∈ numbersOf buffs, actions n = NO_VAL

theorem actionOf_eq (value : List Char) (mact : ℤ) :
    actionOf value mact = (ownAction value).getD mact := by
  unfold actionOf ownAction
  split_ifs <;> rfl

theorem actionOf_ne_noVal (value : List Char) {mact : ℤ} (h : mact ≠ NO_VAL) :
    actionOf value mact ≠ NO_VAL := by
  unfold actionOf
  split_ifs <;> first | exact h | decide

theorem keysOf_append (buffs buffs' : List (List Char)) :
    keysOf (buffs ++ buffs') = keysOf buffs ++ keysOf buffs' := List.filterMap_append

theorem numbersOf_append (buffs buffs' : List (List Char)) :
    numbersOf (buffs ++ buffs') = numbersOf buffs ++ numbersOf buffs' := by
  rw [numbersOf, keysOf_append, List.map_append]
  rfl

theorem numbersOf_cons_of_none {buff : List Char} (h : directive buff = none)
    (buffs : List (List Char)) : numbersOf (buff :: buffs) = numbersOf buffs := by
  simp [numbersOf, keysOf, h]

theorem numbersOf_cons_of_some {buff : List Char} {d : List Char × List Char}
    (h : directive buff = some d) (buffs : List (List Char)) :
    numbersOf (buff :: buffs) = getSyscallNum d.1 :: numbersOf buffs := by
  simp [numbersOf, keysOf, h]

theorem mem_numbersOf {buffs : List (List Char)} {n : ℤ} :
    n ∈ numbersOf buffs ↔ ∃ buff ∈ buffs, ∃ d, directive buff = some d ∧ getSyscallNum d.1 = n := by
  rw [numbersOf, List.mem_map]
  simp only [keysOf, List.mem_filterMap, Option.map_eq_some_iff]
  constructor
  · rintro ⟨_, ⟨buff, hmem, d, hd, rfl⟩, hnum⟩
    exact ⟨buff, hmem, d, hd, hnum⟩
  · rintro ⟨buff, hmem, d, hd, hnum⟩
    exact ⟨d.1, ⟨buff, hmem, d, hd, rfl⟩, hnum⟩

theorem lastOwn_append (buffs buffs' : List (List Char)) :
    lastOwn (buffs ++ buffs') = (lastOwn buffs').or (lastOwn buffs) := by
  rw [lastOwn, ownActions, List.filterMap_append, List.getLast?_append]
  rfl

/-- Without an own action the one before stays in force. -/
theorem lastOwn_cons (buff : List Char) (buffs : List (List Char)) (mact : ℤ) :
    (lastOwn (buff :: buffs)).getD mact =
      (lastOwn buffs).getD ((lastOwn [buff]).getD mact) := by
  rw [← List.singleton_append, lastOwn_append, Option.getD_or]

/-- The last one is the own action of a directive. -/
theorem exists_of_lastOwn {buffs : List (List Char)} {mact : ℤ} (h : lastOwn buffs = some mact) :
    ∃ d, (∃ buff ∈ buffs, directive buff = some d) ∧ ownAction d.2 = some mact := by
  obtain ⟨buff, hmem, hbind⟩ := List.mem_filterMap.1 (List.mem_of_getLast? h)
  obtain ⟨d, hd, hown⟩ := Option.bind_eq_some_iff.1 hbind
  exact ⟨d, ⟨buff, hmem, hd⟩, hown⟩

theorem lastOwn_of_none {buff : List Char} (h : directive buff = none) : lastOwn [buff] = none := by
  simp [lastOwn, ownActions, h]

theorem lastOwn_of_some {buff : List Char} {d : List Char × List Char}
    (h : directive buff = some d) : lastOwn [buff] = ownAction d.2 := by
  cases ho : ownAction d.2 <;> simp [lastOwn, ownActions, h, ho]

/-! ### The loop -/

/-- The exit status of a rejection. -/
theorem loadPiece_error {l : Loader} {buff : List Char} {e : ℤ} (h : loadPiece l buff = .error e) :
    e = -1 := by
  unfold loadPiece at h
  split at h
  · cases h
  · dsimp only at h
    split at h
    · cases h
    · cases h
      rfl

/-- A directive that is taken finds its entry empty. -/
theorem loadPiece_ok {l l' : Loader} {buff : List Char} (h : loadPiece l buff = .ok l')
    {d : List Char × List Char} (hd : directive buff = some d) :
    l.actions (getSyscallNum d.1) = NO_VAL ∧
      l' = ⟨Function.update l.actions (getSyscallNum d.1) (actionOf d.2 l.mact),
        actionOf d.2 l.mact⟩ := by
  rw [loadPiece, hd] at h
  dsimp only at h
  split at h
  · rename_i hempty
    cases h
    exact ⟨hempty, rfl⟩
  · cases h

theorem loadPiece_of_none {l : Loader} {buff : List Char} (h : directive buff = none) :
    loadPiece l buff = .ok l := by rw [loadPiece, h]

theorem loadPiece_of_empty {l : Loader} {buff : List Char} {d : List Char × List Char}
    (hd : directive buff = some d) (h : l.actions (getSyscallNum d.1) = NO_VAL) :
    loadPiece l buff = .ok
      ⟨Function.update l.actions (getSyscallNum d.1) (actionOf d.2 l.mact),
        actionOf d.2 l.mact⟩ := by
  rw [loadPiece, hd]
  exact if_pos h

theorem foldlM_loadPiece_error {buffs : List (List Char)} {l : Loader} {e : ℤ}
    (h : buffs.foldlM loadPiece l = .error e) : e = -1 := by
  induction buffs generalizing l with
  | nil => cases h
  | cons b buffs ih =>
    rw [List.foldlM_cons] at h
    cases hb : loadPiece l b with
    | error e' =>
      rw [hb] at h
      cases h
      exact loadPiece_error hb
    | ok l₁ =>
      rw [hb] at h
      exact ih h

/-- What the loop has made of some pieces: the action in force, and that of each directive. -/
structure LoadedFrom (mact₀ : ℤ) (buffs : List (List Char)) (l : Loader) : Prop where
  mact : l.mact = (lastOwn buffs).getD mact₀
  actions : ∀ pre buff post d, buffs = pre ++ buff :: post → directive buff = some d →
    l.actions (getSyscallNum d.1) = (lastOwn (pre ++ [buff])).getD mact₀

/-- The pieces before decide what is in force for those that follow. -/
theorem LoadedFrom.cons {l l₁ l' : Loader} {b : List Char} {buffs : List (List Char)}
    (hb : loadPiece l b = .ok l₁) (hl : buffs.foldlM loadPiece l₁ = .ok l')
    (hnew : ∀ d, directive b = some d → getSyscallNum d.1 ∉ numbersOf buffs)
    (h : LoadedFrom l₁.mact buffs l') : LoadedFrom l.mact (b :: buffs) l' := by
  have hmact : l₁.mact = (lastOwn [b]).getD l.mact := by
    cases hd : directive b with
    | none =>
      rw [loadPiece_of_none hd] at hb
      cases hb
      rw [lastOwn_of_none hd]
      rfl
    | some d => rw [(loadPiece_ok hb hd).2, lastOwn_of_some hd, actionOf_eq]
  refine ⟨by rw [h.mact, lastOwn_cons, hmact], fun pre buff post d heq hd ↦ ?_⟩
  rcases List.cons_eq_append_iff.1 heq with ⟨rfl, hpost⟩ | ⟨pre', rfl, hpost⟩
  · cases hpost
    -- no later directive has the number of the first one
    have hlater : ∀ buff' ∈ buffs, ∀ d', directive buff' = some d' →
        getSyscallNum d'.1 ≠ getSyscallNum d.1 := fun buff' hmem d' hd' hnum ↦
      hnew d hd (mem_numbersOf.2 ⟨buff', hmem, d', hd', hnum⟩)
    rw [foldlM_loadPiece_actions hl hlater, (loadPiece_ok hb hd).2, List.nil_append,
      lastOwn_of_some hd, ← actionOf_eq]
    exact Function.update_self ..
  · rw [h.actions pre' buff post d hpost hd, List.cons_append, lastOwn_cons, hmact]

/-- **Accepted pieces** are loaded. -/
theorem foldlM_loadPiece_of_accepted {buffs : List (List Char)} {l : Loader}
    (h : Accepted l.actions buffs) :
    ∃ l', buffs.foldlM loadPiece l = .ok l' ∧ LoadedFrom l.mact buffs l' := by
  induction buffs generalizing l with
  | nil =>
    refine ⟨l, rfl, rfl, fun pre buff post d heq ↦ ?_⟩
    exact absurd heq.symm (List.append_ne_nil_of_right_ne_nil _ (List.cons_ne_nil _ _))
  | cons b buffs ih =>
    obtain ⟨hnodup, hempty⟩ := h
    cases hd : directive b with
    | none =>
      rw [numbersOf_cons_of_none hd] at hnodup hempty
      obtain ⟨l', hl, hfrom⟩ := ih ⟨hnodup, hempty⟩
      refine ⟨l', ?_, hfrom.cons (loadPiece_of_none hd) hl fun d hd' ↦ ?_⟩
      · rw [List.foldlM_cons, loadPiece_of_none hd]
        exact hl
      · rw [hd] at hd'
        cases hd'
    | some d =>
      rw [numbersOf_cons_of_some hd] at hnodup hempty
      obtain ⟨hnew, hnodup⟩ := List.nodup_cons.1 hnodup
      have hb := loadPiece_of_empty hd (hempty _ List.mem_cons_self)
      obtain ⟨l', hl, hfrom⟩ := ih (l := ⟨Function.update l.actions (getSyscallNum d.1)
        (actionOf d.2 l.mact), actionOf d.2 l.mact⟩) ⟨hnodup, fun n hn ↦ by
          rw [← hempty n (List.mem_cons_of_mem _ hn)]
          exact Function.update_of_ne (ne_of_mem_of_not_mem hn hnew) _ _⟩
      refine ⟨l', ?_, hfrom.cons hb hl fun d' hd' ↦ ?_⟩
      · rw [List.foldlM_cons, hb]
        exact hl
      · rw [hd, Option.some.injEq] at hd'
        rwa [← hd']

/-- And no others are. -/
theorem accepted_of_foldlM {buffs : List (List Char)} {l l' : Loader} (hm : l.mact ≠ NO_VAL)
    (h : buffs.foldlM loadPiece l = .ok l') : Accepted l.actions buffs := by
  induction buffs generalizing l with
  | nil => exact ⟨List.nodup_nil, fun n hn ↦ absurd hn List.not_mem_nil⟩
  | cons b buffs ih =>
    rw [List.foldlM_cons] at h
    cases hb : loadPiece l b with
    | error e =>
      rw [hb] at h
      cases h
    | ok l₁ =>
      rw [hb] at h
      cases hd : directive b with
      | none =>
        rw [loadPiece_of_none hd] at hb
        cases hb
        rw [Accepted, numbersOf_cons_of_none hd]
        exact ih hm h
      | some d =>
        obtain ⟨hempty, rfl⟩ := loadPiece_ok hb hd
        have hmact := actionOf_ne_noVal d.2 hm
        obtain ⟨hnodup, hrest⟩ := ih (l := ⟨_, actionOf d.2 l.mact⟩) hmact h
        -- the entry just filled is not empty any more
        have hne : ∀ n ∈ numbersOf buffs, n ≠ getSyscallNum d.1 := by
          rintro n hn rfl
          exact hmact ((Function.update_self ..).symm.trans (hrest _ hn))
        rw [Accepted, numbersOf_cons_of_some hd]
        refine ⟨List.nodup_cons.2 ⟨fun hn ↦ hne _ hn rfl, hnodup⟩, fun n hn ↦ ?_⟩
        rcases List.mem_cons.1 hn with rfl | hn
        · exact hempty
        · rw [← hrest n hn]
          exact (Function.update_of_ne (hne n hn) _ _).symm

/-! ### The table -/

/-- The action in force behind some pieces. -/
def inForce (buffs : List (List Char)) : ℤ := (lastOwn buffs).getD ALLOW_LIND

theorem inForce_append (buffs buffs' : List (List Char)) :
    inForce (buffs ++ buffs') = (lastOwn buffs').getD (inForce buffs) := by
  rw [inForce, lastOwn_append, Option.getD_or]
  rfl

/-- It is one of the three. -/
theorem inForce_ne_noVal (buffs : List (List Char)) : inForce buffs ≠ NO_VAL := by
  rcases hlast : lastOwn buffs with - | mact
  · rw [inForce, hlast]
    decide
  · obtain ⟨d, -, hown⟩ := exists_of_lastOwn hlast
    rw [inForce, hlast]
    rintro (rfl : mact = NO_VAL)
    have hne := actionOf_ne_noVal d.2 (show ALLOW_LIND ≠ NO_VAL by decide)
    rw [actionOf_eq, hown] at hne
    exact hne rfl

/-- What `load_config` makes of some pieces. -/
def loaded (around : Actions) (buffs : List (List Char)) : Except ℤ Actions := do
  let l ← buffs.foldlM loadPiece ⟨emptyActions around, ALLOW_LIND⟩
  return l.actions

theorem loadConfig_eq (around : Actions) (file : List Char) :
    loadConfig around file = loaded around (pieces file) := rfl

/-- The table that accepted pieces make. -/
structure TableOf (around : Actions) (buffs : List (List Char)) (acts : Actions) : Prop where
  entry : ∀ pre buff post d, buffs = pre ++ buff :: post → directive buff = some d →
    acts (getSyscallNum d.1) = inForce (pre ++ [buff])
  other : ∀ n, n ∉ numbersOf buffs → acts n = emptyActions around n

/-- Accepted pieces make a table. -/
theorem loaded_of_accepted {around : Actions} {buffs : List (List Char)}
    (h : Accepted (emptyActions around) buffs) :
    ∃ acts, loaded around buffs = .ok acts ∧ TableOf around buffs acts := by
  obtain ⟨l, hl, hfrom⟩ := foldlM_loadPiece_of_accepted (l := ⟨emptyActions around, ALLOW_LIND⟩) h
  refine ⟨l.actions, by rw [loaded, hl]; rfl, hfrom.actions, fun n hn ↦ ?_⟩
  exact foldlM_loadPiece_actions hl fun buff hmem d hd hnum ↦
    hn (mem_numbersOf.2 ⟨buff, hmem, d, hd, hnum⟩)

/-- Others end the run. -/
theorem loaded_of_not_accepted {around : Actions} {buffs : List (List Char)}
    (h : ¬ Accepted (emptyActions around) buffs) : loaded around buffs = .error (-1) := by
  rcases hl : buffs.foldlM loadPiece ⟨emptyActions around, ALLOW_LIND⟩ with e | l
  · rw [loaded, hl, foldlM_loadPiece_error hl]
    rfl
  · exact absurd (accepted_of_foldlM (show ALLOW_LIND ≠ NO_VAL by decide) hl) h

/-- A piece that is no directive goes by. -/
theorem loaded_skip (around : Actions) {buff : List Char} (h : directive buff = none)
    (before after : List (List Char)) :
    loaded around (before ++ buff :: after) = loaded around (before ++ after) := by
  rw [loaded, loaded, List.foldlM_append, List.foldlM_append]
  simp only [List.foldlM_cons, loadPiece_of_none h]
  rfl

/-- Where the names are known, pieces are accepted if none of them occurs twice. -/
theorem accepted_iff_of_known {around : Actions} {buffs : List (List Char)}
    (h : ∀ key ∈ keysOf buffs, KnownName key) :
    Accepted (emptyActions around) buffs ↔ (keysOf buffs).Nodup := by
  have hempty : ∀ n ∈ numbersOf buffs, emptyActions around n = NO_VAL := fun n hn ↦ by
    obtain ⟨key, hkey, rfl⟩ := List.mem_map.1 hn
    exact if_pos (inTable_getSyscallNum_iff.2 (h key hkey))
  rw [Accepted, and_iff_left hempty]
  refine ⟨List.Nodup.of_map _, fun hnodup ↦ hnodup.map_on fun key hkey key' hkey' heq ↦ ?_⟩
  exact (getSyscallNum_inj (h key hkey) (h key' hkey')).1 heq

end ReferenceMonitor
