import ReferenceMonitor.Monitor.Directives

/-!
# A policy and its text

What a configuration file is for, apart from its characters: a list of lines, each of them a remark
or the verdict on a call (`Policy`). Written out, a policy is rejected exactly where it has two
verdicts on one call, and otherwise `monitor_actions` are its verdicts (`loadConfig_policy`).
-/

namespace ReferenceMonitor

/-! ### The names of the calls -/

/-- The numbers differ; a check that is cheap to evaluate. -/
def distinct : List ℕ → Bool
  | [] => true
  | n :: rest => rest.all (fun m ↦ !Nat.beq n m) && distinct rest

theorem nodup_of_distinct {numbers : List ℕ} (h : distinct numbers = true) : numbers.Nodup := by
  induction numbers with
  | nil => exact List.nodup_nil
  | cons n rest ih =>
    rw [distinct, Bool.and_eq_true, List.all_eq_true] at h
    refine List.nodup_cons.2 ⟨fun hmem ↦ ?_, ih h.2⟩
    have hself := h.1 n hmem
    simp at hself

/-- A number for a name. -/
def nameCode (name : List Char) : ℕ := name.foldr (fun c code ↦ 128 * code + c.toNat) 0

/-- A short name of characters above `/` and other than `=`. -/
def plainName (name : List Char) : Bool :=
  name.all (fun c ↦ Nat.blt 47 c.toNat && c.toNat != 61) && Nat.ble name.length 80

theorem map_toList_cons {s : String} {strings : List String} {name : List Char}
    {names : List (List Char)} (hs : s = String.ofList name)
    (hstrings : strings.map String.toList = names) :
    (s :: strings).map String.toList = name :: names := by
  rw [List.map_cons, hs, String.toList_ofList, hstrings]

set_option maxRecDepth 4000 in
/-- The names are spelled out once, to be checked as lists of characters. -/
theorem exists_names : ∃ names, syscallNames.map String.toList = names ∧
    distinct (names.map nameCode) = true ∧ names.all plainName = true := by
  apply Exists.intro
  apply And.intro
  · unfold syscallNames
    repeat apply map_toList_cons rfl
    rfl
  · exact ⟨by decide +kernel, by decide +kernel⟩

theorem nodup_syscallNames : syscallNames.Nodup := by
  obtain ⟨names, hnames, hdistinct, -⟩ := exists_names
  have hnodup := (nodup_of_distinct hdistinct).of_map
  rw [← hnames] at hnodup
  exact hnodup.of_map

/-- The name of a call. -/
def callName (call : Fin syscallNames.length) : List Char := (syscallNames.get call).toList

theorem callName_injective : Function.Injective callName := fun _ _ h ↦
  List.nodup_iff_injective_get.1 nodup_syscallNames (String.toList_inj.1 h)

theorem knownName_callName (call : Fin syscallNames.length) : KnownName (callName call) :=
  ⟨_, List.get_mem _ _, rfl⟩

/-- `get_syscall_num` finds the call by its name. -/
theorem getSyscallNum_callName (call : Fin syscallNames.length) :
    getSyscallNum (callName call) = (call : ℕ) := by
  obtain ⟨i, hi, hnum, hget⟩ := getSyscallNum_of_known (knownName_callName call)
  have hcall : (⟨i, hi⟩ : Fin syscallNames.length) = call := callName_injective hget
  rw [hnum, ← hcall]

theorem plainName_callName (call : Fin syscallNames.length) :
    (∀ c ∈ callName call, 47 < c.toNat ∧ c.toNat ≠ 61) ∧ (callName call).length ≤ 80 := by
  obtain ⟨names, hnames, -, hplain⟩ := exists_names
  have hmem : callName call ∈ names := hnames ▸ List.mem_map_of_mem (List.get_mem _ _)
  have hcall := List.all_eq_true.1 hplain _ hmem
  simpa [plainName, List.all_eq_true] using hcall

theorem not_mem_callName {c : Char} (h : c.toNat ≤ 47 ∨ c.toNat = 61)
    (call : Fin syscallNames.length) : c ∉ callName call := fun hmem ↦ by
  have hplain := (plainName_callName call).1 c hmem
  omega

/-! ### Policies -/

/-- A verdict on a call. -/
inductive Verb
  | allowLind
  | denyLind
  | allowOs
  deriving DecidableEq

/-- How it is written. -/
def Verb.text : Verb → List Char
  | allowLind => "ALLOW_LIND".toList
  | denyLind => "DENY_LIND".toList
  | allowOs => "ALLOW_OS".toList

/-- The `enum monitor_action` it stands for. -/
def Verb.action : Verb → ℤ
  | allowLind => ALLOW_LIND
  | denyLind => DENY_LIND
  | allowOs => ALLOW_OS

/-- A line that is blank, a comment, or without an `=`. -/
structure Remark where
  text : List Char
  oneLine : '\n' ∉ text
  noNul : '\x00' ∉ text
  fits : text.length ≤ 98
  mute : text = [] ∨ text.head? = some '#' ∨ '=' ∉ text

/-- A line of a policy. -/
inductive PolicyLine
  | remark (r : Remark)
  | directive (call : Fin syscallNames.length) (verb : Verb)

/-- A line without its end. -/
def PolicyLine.text : PolicyLine → List Char
  | remark r => r.text
  | directive call verb => callName call ++ '=' :: verb.text

/-- The call a line is about. -/
def PolicyLine.call? : PolicyLine → Option (Fin syscallNames.length)
  | remark _ => none
  | directive call _ => some call

/-- A configuration file, line by line. -/
abbrev Policy := List PolicyLine

namespace Policy

/-- The file. -/
def text (p : Policy) : List Char := p.flatMap fun line ↦ line.text ++ ['\n']

/-- Its lines as they are read. -/
abbrev lines (p : Policy) : List (List Char) := p.map fun line ↦ line.text ++ ['\n']

/-- The calls it has verdicts on. -/
def calls (p : Policy) : List (Fin syscallNames.length) := p.filterMap PolicyLine.call?

end Policy

theorem ownAction_text (verb : Verb) : ownAction (verb.text ++ ['\n']) = some verb.action := by
  cases verb <;> decide

theorem Verb.plain (verb : Verb) :
    '\n' ∉ verb.text ∧ '\x00' ∉ verb.text ∧ verb.text.length ≤ 10 := by
  cases verb <;> decide

/-- A line of a policy fits the buffer. -/
theorem PolicyLine.fits (line : PolicyLine) :
    '\n' ∉ line.text ∧ '\x00' ∉ line.text ∧ line.text.length ≤ 98 := by
  cases line with
  | remark r => exact ⟨r.oneLine, r.noNul, r.fits⟩
  | directive call verb =>
    obtain ⟨hnl, hnul, hlen⟩ := verb.plain
    have hname := (plainName_callName call).2
    refine ⟨?_, ?_, ?_⟩
    · simpa [text] using ⟨not_mem_callName (by decide) call, hnl⟩
    · simpa [text] using ⟨not_mem_callName (by decide) call, hnul⟩
    · simp only [text, List.length_append, List.length_cons]
      omega

/-- What a line of a configuration file may be. -/
def IsPolicyLine (text : List Char) : Prop :=
  '\x00' ∉ text ∧ text.length ≤ 98 ∧ (text = [] ∨ text.head? = some '#' ∨ '=' ∉ text ∨
    ∃ name verb, KnownName name ∧ text = name ++ '=' :: Verb.text verb)

theorem PolicyLine.isPolicyLine (line : PolicyLine) : IsPolicyLine line.text := by
  obtain ⟨-, hnul, hlen⟩ := line.fits
  refine ⟨hnul, hlen, ?_⟩
  cases line with
  | remark r =>
    rcases r.mute with hblank | hhash | hsep
    · exact .inl hblank
    · exact .inr (.inl hhash)
    · exact .inr (.inr (.inl hsep))
  | directive call verb => exact .inr (.inr (.inr ⟨_, verb, knownName_callName call, rfl⟩))

theorem IsPolicyLine.exists_line {text : List Char} (h : IsPolicyLine text) (hnl : '\n' ∉ text) :
    ∃ line : PolicyLine, line.text = text := by
  obtain ⟨hnul, hlen, hmute⟩ := h
  by_cases hremark : text = [] ∨ text.head? = some '#' ∨ '=' ∉ text
  · exact ⟨.remark ⟨text, hnl, hnul, hlen, hremark⟩, rfl⟩
  · simp only [not_or] at hremark
    simp only [hremark, false_or] at hmute
    obtain ⟨name, verb, hknown, rfl⟩ := hmute
    obtain ⟨i, hi, -, hget⟩ := getSyscallNum_of_known hknown
    exact ⟨.directive ⟨i, hi⟩ verb, by rw [PolicyLine.text, callName, hget]⟩

theorem isText_lines (p : Policy) : Text.IsText '\n' p.lines := by
  induction p with
  | nil => exact .nil
  | cons line p ih => exact .cons ⟨line.text, line.fits.1, rfl⟩ ih

/-- The texts of policies are the files of such lines, each with its end. -/
theorem exists_policy_iff (file : List Char) : (∃ p : Policy, p.text = file) ↔
    ∀ line ∈ Text.linesOf '\n' file, ∃ text, '\n' ∉ text ∧ line = text ++ ['\n'] ∧
      IsPolicyLine text := by
  constructor
  · rintro ⟨p, rfl⟩ line hmem
    rw [Policy.text, List.flatMap_def, Text.linesOf_flatten (isText_lines p)] at hmem
    obtain ⟨pl, -, rfl⟩ := List.mem_map.1 hmem
    exact ⟨pl.text, pl.fits.1, rfl, pl.isPolicyLine⟩
  · intro h
    rw [← Text.flatten_linesOf '\n' file]
    generalize Text.linesOf '\n' file = lines at h
    induction lines with
    | nil => exact ⟨[], rfl⟩
    | cons line lines ih =>
      obtain ⟨p, hp⟩ := ih fun l hl ↦ h l (List.mem_cons_of_mem _ hl)
      obtain ⟨text, hnl, rfl, htext⟩ := h line List.mem_cons_self
      obtain ⟨pl, rfl⟩ := htext.exists_line hnl
      exact ⟨pl :: p, by rw [List.flatten_cons, ← hp]; rfl⟩

/-- What `load_config` reads of a policy: its lines. -/
theorem pieces_text (p : Policy) : pieces p.text = p.lines := by
  induction p with
  | nil => rfl
  | cons line p ih =>
    obtain ⟨hnl, -, hlen⟩ := line.fits
    rw [Policy.text, List.flatMap_cons, List.append_assoc, List.singleton_append,
      pieces_ended_of_lt hnl hlen, ← Policy.text, ih]
    rfl

/-- A remark is no directive. -/
theorem directive_remark (r : Remark) : directive (r.text ++ ['\n']) = none := by
  have hbody : Text.body '\x00' (r.text ++ ['\n']) = r.text ++ ['\n'] := Text.body_of_not_mem (by
    simpa using r.noNul)
  have hkey : (directive (r.text ++ ['\n'])).map Prod.fst = none := by
    rw [directive_key, hbody]
    refine if_pos ?_
    rcases r.mute with hblank | hhash | hsep
    · exact .inl (by rw [hblank]; rfl)
    · exact .inr (.inl (by rw [List.head?_append, hhash]; rfl))
    · exact .inr (.inr (by simpa using hsep))
  exact Option.map_eq_none_iff.1 hkey

/-- A verdict is a directive for its call. -/
theorem directive_verdict (call : Fin syscallNames.length) (verb : Verb) :
    directive ((PolicyLine.directive call verb).text ++ ['\n']) =
      some (callName call, verb.text ++ ['\n']) := by
  have hfirst (c : Char) (hne : c ≠ '=') (hname : c ∉ callName call) :
      ((PolicyLine.directive call verb).text ++ ['\n']).head? ≠ some c := by
    intro hhead
    rw [PolicyLine.text, List.append_assoc, List.head?_append] at hhead
    rcases Option.or_eq_some_iff.1 hhead with hhead | ⟨-, hhead⟩
    · exact hname (List.mem_of_head? hhead)
    · exact hne (Option.some.inj hhead).symm
  have hnul := (PolicyLine.directive call verb).fits.2.1
  refine directive_of_eq (hfirst '\n' (by decide) (not_mem_callName (by decide) call))
    (hfirst '#' (by decide) (not_mem_callName (by decide) call))
    (not_mem_callName (by decide) call) ?_
  rw [Text.body_of_not_mem (by simpa using hnul), PolicyLine.text, List.append_assoc]
  rfl

/-- Its keys are the names of the calls with verdicts. -/
theorem keysOf_lines (p : Policy) : keysOf p.lines = p.calls.map callName := by
  rw [keysOf, List.filterMap_map, Policy.calls, List.map_filterMap]
  refine List.filterMap_congr fun line _ ↦ ?_
  cases line with
  | remark r => simp [PolicyLine.text, directive_remark, PolicyLine.call?]
  | directive call verb => simp [directive_verdict, PolicyLine.call?]

theorem accepted_lines (around : Actions) (p : Policy) :
    Accepted (emptyActions around) p.lines ↔ p.calls.Nodup := by
  rw [accepted_iff_of_known, keysOf_lines, List.nodup_map_iff callName_injective]
  rw [keysOf_lines]
  intro key hkey
  obtain ⟨call, -, rfl⟩ := List.mem_map.1 hkey
  exact knownName_callName call

/-- **Loading a policy.** The text of a policy is rejected exactly where there are two verdicts on
one call. Otherwise the table has the verdict on every call there is one on, and no other entry. -/
theorem loadConfig_policy (around : Actions) (p : Policy) :
    ((∃ status, loadConfig around p.text = .error status) ↔ ¬ p.calls.Nodup) ∧
      ∀ acts, loadConfig around p.text = .ok acts → ∀ call : Fin syscallNames.length,
        (∀ verb, .directive call verb ∈ p → acts (call : ℕ) = verb.action) ∧
          (call ∉ p.calls → acts (call : ℕ) = NO_VAL) := by
  rw [loadConfig_eq, pieces_text, ← accepted_lines around]
  by_cases hacc : Accepted (emptyActions around) p.lines
  · obtain ⟨acts, hload, htable⟩ := loaded_of_accepted hacc
    rw [hload]
    refine ⟨iff_of_false (by rintro ⟨status, ⟨⟩⟩) (not_not.2 hacc), ?_⟩
    rintro _ ⟨⟩ call
    refine ⟨fun verb hmem ↦ ?_, fun hno ↦ ?_⟩
    · obtain ⟨pre, post, rfl⟩ := List.append_of_mem hmem
      have hentry := htable.entry (Policy.lines pre) _ (Policy.lines post) _
        (by rw [Policy.lines, List.map_append, List.map_cons]) (directive_verdict call verb)
      rw [getSyscallNum_callName] at hentry
      rw [hentry, inForce_append, lastOwn_of_some (directive_verdict call verb), ownAction_text]
      rfl
    · have hin : InTable (call : ℕ) := by
        rw [← getSyscallNum_callName]
        exact inTable_getSyscallNum_iff.2 (knownName_callName call)
      refine (htable.other _ fun hmem ↦ hno ?_).trans (if_pos hin)
      rw [numbersOf, keysOf_lines, List.map_map] at hmem
      obtain ⟨call', hcall', hnum⟩ := List.mem_map.1 hmem
      rw [Function.comp_apply, getSyscallNum_callName, Nat.cast_inj] at hnum
      rwa [← Fin.ext hnum]
  · rw [loaded_of_not_accepted hacc]
    exact ⟨iff_of_true ⟨_, rfl⟩ hacc, by rintro acts ⟨⟩⟩

end ReferenceMonitor
