import ReferenceMonitor.Monitor.Directives

/-!
# What a line of the policy depends on

A directive whose value is one of the three actions, with the end of its line, sets the action of
its call and nothing else. One with another value, as a misspelled one or that of a last line
without an end, sets it to the action in force, and so to what the directives before it have left
(`sameAction_iff`).

A comment is skipped by its first character. If it does not fit the buffer, its further pieces are
read like any others, and they may be directives (`sameLoad_iff`).
-/

namespace ReferenceMonitor

/-! ### Locality -/

/-- Lines that fit the buffer, and directives for different calls. -/
structure Proper (file : List Char) : Prop where
  short : ShortLines file
  known : ∀ key ∈ keysOf (Text.linesOf '\n' file), KnownName key
  once : (keysOf (Text.linesOf '\n' file)).Nodup

instance (file : List Char) : Decidable (Proper file) :=
  decidable_of_iff (ShortLines file ∧ (∀ key ∈ keysOf (Text.linesOf '\n' file), KnownName key) ∧
    (keysOf (Text.linesOf '\n' file)).Nodup) ⟨fun h ↦ ⟨h.1, h.2.1, h.2.2⟩, fun h ↦ ⟨h.1, h.2, h.3⟩⟩

/-- A proper file is loaded. -/
theorem Proper.loadConfig {file : List Char} (h : Proper file) (around : Actions) :
    ∃ acts, loadConfig around file = .ok acts ∧ TableOf around (Text.linesOf '\n' file) acts := by
  rw [loadConfig_eq, pieces_of_shortLines h.short]
  exact loaded_of_accepted ((accepted_iff_of_known h.known).2 h.once)

/-- The end of a line is in the value, if it is in the directive at all. -/
theorem key_concat {text : List Char} (h : '\n' ∉ text) :
    (directive (text ++ ['\n'])).map Prod.fst = (directive text).map Prod.fst := by
  rcases text with - | ⟨c, text⟩
  · rfl
  have hstr : Text.body '\x00' (c :: text ++ ['\n']) = Text.body '\x00' (c :: text) ∨
      Text.body '\x00' (c :: text ++ ['\n']) = Text.body '\x00' (c :: text) ++ ['\n'] := by
    by_cases hnul : '\x00' ∈ c :: text
    · exact .inl (Text.body_append_of_mem hnul _)
    · refine .inr ?_
      rw [Text.body_of_not_mem hnul, Text.body_of_not_mem]
      simpa using hnul
  rw [directive_key, directive_key, List.cons_append, List.head?_cons, List.head?_cons,
    ← List.cons_append]
  rcases hstr with hstr | hstr
  · rw [hstr]
  · rw [hstr]
    by_cases hsep : '=' ∈ Text.body '\x00' (c :: text)
    · rw [Text.body_append_of_mem hsep]
      simp [hsep]
    · simp [hsep]

/-- So lines of one text have one key. -/
theorem key_body {lines : List (List Char)} (h : Text.IsText '\n' lines) {line : List Char}
    (hmem : line ∈ lines) :
    (directive line).map Prod.fst = (directive (Text.body '\n' line)).map Prod.fst := by
  obtain ⟨hnl, hline | hline⟩ := h.eq_body_or hmem
  · rw [← key_concat hnl, ← hline]
  · rw [← hline]

/-- A directive that two files have in common, with what stands before it in each. -/
structure Common (file file' : List Char) (pre pre' : List (List Char)) (line line' : List Char)
    (d : List Char × List Char) : Prop where
  left : ∃ post, Text.linesOf '\n' file = pre ++ line :: post
  right : ∃ post, Text.linesOf '\n' file' = pre' ++ line' :: post
  text : Text.body '\n' line = Text.body '\n' line'
  directive : directive line = some d

theorem Common.key {file file' : List Char} {pre pre' : List (List Char)} {line line' : List Char}
    {d : List Char × List Char} (h : Common file file' pre pre' line line' d) :
    ∃ d', ReferenceMonitor.directive line' = some d' ∧ d'.1 = d.1 := by
  obtain ⟨post, hfile⟩ := h.left
  obtain ⟨post', hfile'⟩ := h.right
  have hkey := key_body (Text.isText_linesOf '\n' file)
    (show line ∈ Text.linesOf '\n' file by simp [hfile])
  have hkey' := key_body (Text.isText_linesOf '\n' file')
    (show line' ∈ Text.linesOf '\n' file' by simp [hfile'])
  rw [h.text, ← hkey', h.directive] at hkey
  exact Option.map_eq_some_iff.1 hkey.symm

/-- Both files are loaded, with the same action at the index. -/
def SameAction (around : Actions) (file file' : List Char) (n : ℤ) : Prop :=
  ∃ acts acts', loadConfig around file = .ok acts ∧ loadConfig around file' = .ok acts' ∧
    acts n = acts' n

/-- Both files are loaded, with the same table. -/
def SamePolicy (around : Actions) (file file' : List Char) : Prop :=
  ∃ acts acts', loadConfig around file = .ok acts ∧ loadConfig around file' = .ok acts' ∧
    ∀ n, InTable n → acts n = acts' n

section Locality

variable {around : Actions} {file file' : List Char}

/-- The actions of a common directive. -/
theorem Common.entries {acts acts' : Actions}
    (h : TableOf around (Text.linesOf '\n' file) acts)
    (h' : TableOf around (Text.linesOf '\n' file') acts')
    {pre pre' : List (List Char)} {line line' : List Char} {d : List Char × List Char}
    (hcommon : Common file file' pre pre' line line' d) :
    acts (getSyscallNum d.1) = inForce (pre ++ [line]) ∧
      acts' (getSyscallNum d.1) = inForce (pre' ++ [line']) := by
  obtain ⟨post, hfile⟩ := hcommon.left
  obtain ⟨post', hfile'⟩ := hcommon.right
  obtain ⟨d', hd', hkey⟩ := hcommon.key
  exact ⟨h.entry pre line post d hfile hcommon.directive,
    hkey ▸ h'.entry pre' line' post' d' hfile' hd'⟩

/-- A directive of one file is one of the other, if the lines are the same up to their order. -/
theorem exists_common (hperm : ((Text.linesOf '\n' file).map (Text.body '\n')).Perm
      ((Text.linesOf '\n' file').map (Text.body '\n')))
    {n : ℤ} (hn : n ∈ numbersOf (Text.linesOf '\n' file)) :
    ∃ pre pre' line line' d, Common file file' pre pre' line line' d ∧ getSyscallNum d.1 = n := by
  obtain ⟨line, hmem, d, hd, hnum⟩ := mem_numbersOf.1 hn
  obtain ⟨line', hmem', htext⟩ :=
    List.mem_map.1 (hperm.subset (List.mem_map_of_mem (f := Text.body '\n') hmem))
  obtain ⟨pre, post, hfile⟩ := List.append_of_mem hmem
  obtain ⟨pre', post', hfile'⟩ := List.append_of_mem hmem'
  exact ⟨pre, pre', line, line', d, ⟨⟨post, hfile⟩, ⟨post', hfile'⟩, htext.symm, hd⟩, hnum⟩

/-- **Locality.** Two files give the call of a common directive the same action exactly where the
directives up to it have left the same action in force; and if their lines are the same up to their
order, they make the same table exactly where this is so for all of them. -/
theorem sameAction_iff (around : Actions) (h : Proper file) (h' : Proper file') :
    (∀ pre pre' line line' d, Common file file' pre pre' line line' d →
      (SameAction around file file' (getSyscallNum d.1) ↔
        inForce (pre ++ [line]) = inForce (pre' ++ [line']))) ∧
    (((Text.linesOf '\n' file).map (Text.body '\n')).Perm
        ((Text.linesOf '\n' file').map (Text.body '\n')) →
      (SamePolicy around file file' ↔ ∀ pre pre' line line' d,
        Common file file' pre pre' line line' d →
          inForce (pre ++ [line]) = inForce (pre' ++ [line']))) := by
  obtain ⟨acts, hload, htable⟩ := h.loadConfig around
  obtain ⟨acts', hload', htable'⟩ := h'.loadConfig around
  refine ⟨fun pre pre' line line' d hcommon ↦ ?_, fun hperm ↦ ⟨fun hsame ↦ ?_, fun hsame ↦ ?_⟩⟩
  · obtain ⟨hact, hact'⟩ := hcommon.entries htable htable'
    rw [← hact, ← hact']
    constructor
    · rintro ⟨a, a', ha, ha', heq⟩
      rw [hload, Except.ok.injEq] at ha
      rw [hload', Except.ok.injEq] at ha'
      rwa [ha, ha']
    · exact fun heq ↦ ⟨acts, acts', hload, hload', heq⟩
  · intro pre pre' line line' d hcommon
    obtain ⟨hact, hact'⟩ := hcommon.entries htable htable'
    obtain ⟨a, a', ha, ha', heq⟩ := hsame
    rw [hload, Except.ok.injEq] at ha
    rw [hload', Except.ok.injEq] at ha'
    obtain ⟨post, hfile⟩ := hcommon.left
    have hkey : d.1 ∈ keysOf (Text.linesOf '\n' file) := by
      rw [hfile, keysOf_append]
      exact List.mem_append_right _ (List.mem_filterMap.2
        ⟨line, List.mem_cons_self, by rw [hcommon.directive]; rfl⟩)
    rw [← hact, ← hact', ha, ha']
    exact heq _ (inTable_getSyscallNum_iff.2 (h.known _ hkey))
  · refine ⟨acts, acts', hload, hload', fun n hn ↦ ?_⟩
    by_cases hmem : n ∈ numbersOf (Text.linesOf '\n' file)
    · obtain ⟨pre, pre', line, line', d, hcommon, rfl⟩ := exists_common hperm hmem
      obtain ⟨hact, hact'⟩ := hcommon.entries htable htable'
      rw [hact, hact', hsame _ _ _ _ _ hcommon]
    · -- then no directive of the other file is for the call either
      have hmem' : n ∉ numbersOf (Text.linesOf '\n' file') := fun hmem' ↦ by
        obtain ⟨pre', pre, line', line, d', hcommon, rfl⟩ := exists_common hperm.symm hmem'
        obtain ⟨post, hfile⟩ := hcommon.right
        obtain ⟨d, hd, hkey⟩ := hcommon.key
        exact hmem (mem_numbersOf.2 ⟨line, by simp [hfile], d, hd, by rw [hkey]⟩)
      rw [htable.other n hmem, htable'.other n hmem']

end Locality

/-- A misspelled value alone, and behind another directive. -/
def misspelled : List Char := "read=ALLOW_LINd\n".toList

def deniedBefore : List Char := "write=DENY_LIND\nread=ALLOW_LINd\n".toList

theorem proper_misspelled : Proper misspelled := by decide

theorem proper_deniedBefore : Proper deniedBefore := by decide

/-- The misspelled value behind a `DENY_LIND`. -/
theorem common_misspelled : Common misspelled deniedBefore [] ["write=DENY_LIND\n".toList]
    "read=ALLOW_LINd\n".toList "read=ALLOW_LINd\n".toList
      ("read".toList, "ALLOW_LINd\n".toList) where
  left := ⟨[], by decide⟩
  right := ⟨[], by decide⟩
  text := rfl
  directive := by decide

theorem sameAction_iff_misspelled :
    (∀ pre pre' line line' d, Common misspelled deniedBefore pre pre' line line' d →
      (SameAction (fun _ ↦ 0) misspelled deniedBefore (getSyscallNum d.1) ↔
        inForce (pre ++ [line]) = inForce (pre' ++ [line']))) ∧
    (((Text.linesOf '\n' misspelled).map (Text.body '\n')).Perm
        ((Text.linesOf '\n' deniedBefore).map (Text.body '\n')) →
      (SamePolicy (fun _ ↦ 0) misspelled deniedBefore ↔ ∀ pre pre' line line' d,
        Common misspelled deniedBefore pre pre' line line' d →
          inForce (pre ++ [line]) = inForce (pre' ++ [line']))) :=
  sameAction_iff (fun _ ↦ 0) proper_misspelled proper_deniedBefore

/-- It allows the call in one of the files and denies it in the other. -/
theorem not_sameAction : ¬ ∀ (around : Actions) (file file' : List Char), Proper file →
    Proper file' → ∀ pre pre' line line' d, Common file file' pre pre' line line' d →
      SameAction around file file' (getSyscallNum d.1) := by
  intro h
  obtain ⟨acts, acts', hacts, hacts', heq⟩ := h (fun _ ↦ 0) _ _ proper_misspelled
    proper_deniedBefore _ _ _ _ _ common_misspelled
  obtain ⟨a, ha, htable⟩ := proper_misspelled.loadConfig fun _ ↦ 0
  obtain ⟨a', ha', htable'⟩ := proper_deniedBefore.loadConfig fun _ ↦ 0
  rw [hacts, Except.ok.injEq] at ha
  rw [hacts', Except.ok.injEq] at ha'
  obtain ⟨hentry, hentry'⟩ := common_misspelled.entries htable htable'
  rw [← ha, heq, ha', hentry'] at hentry
  exact absurd hentry (by decide)

/-! ### Comments -/

theorem directive_comment {buff : List Char} (h : buff.head? = some '#') : directive buff = none :=
  if_pos (.inr h)

/-- The first piece of a comment is a comment. -/
theorem pieces_comment {line : List Char} (h : line.head? = some '#') :
    ∃ buff, directive buff = none ∧ pieces line = buff :: (pieces line).tail := by
  obtain ⟨text, rfl⟩ := List.head?_eq_some_iff.1 h
  refine ⟨(fgets 99 ('#' :: text)).1, directive_comment ?_, ?_⟩
  · rw [fgets, if_neg (by decide)]
    rfl
  · rw [pieces_of_ne_nil (List.cons_ne_nil _ _)]
    rfl

/-- Both reject the file, or make the same table. -/
inductive SameLoad : Except ℤ Actions → Except ℤ Actions → Prop
  | ok {acts acts' : Actions} (h : ∀ n, InTable n → acts n = acts' n) :
      SameLoad (.ok acts) (.ok acts')
  | error (status : ℤ) : SameLoad (.error status) (.error status)

theorem SameLoad.sameTable {acts acts' : Actions} (h : SameLoad (.ok acts) (.ok acts')) :
    ∀ n, InTable n → acts n = acts' n := by
  cases h with
  | ok h => exact h

/-- Pieces between others that leave the table alone: none of them names a call, and the first
directive behind them, if there is one, finds the same action in force or has its own. -/
structure Inert (around : Actions) (before stray after : List (List Char)) : Prop where
  accepted : Accepted (emptyActions around) (before ++ stray ++ after)
  unknown : ∀ key ∈ keysOf stray, ¬ KnownName key
  inForce : inForce (before ++ stray) = inForce before ∨
    ∀ d, after.findSome? directive = some d → ownAction d.2 ≠ none

theorem Accepted.remove {actions : Actions} {before stray after : List (List Char)}
    (h : Accepted actions (before ++ stray ++ after)) : Accepted actions (before ++ after) := by
  have hsub : (numbersOf (before ++ after)).Sublist (numbersOf (before ++ stray ++ after)) := by
    rw [numbersOf_append, numbersOf_append, numbersOf_append]
    exact (List.sublist_append_left _ _).append (List.Sublist.refl _)
  exact ⟨h.1.sublist hsub, fun n hn ↦ h.2 n (hsub.subset hn)⟩

section Comments

variable {around : Actions} {before stray after : List (List Char)} {acts acts' : Actions}

/-- Behind a first directive with an own action, what was in force before does not matter. -/
theorem inForce_of_own {buffs : List (List Char)}
    (hown : ∀ d, buffs.findSome? directive = some d → ownAction d.2 ≠ none)
    {buff : List Char} (hmem : buff ∈ buffs) (hdir : directive buff ≠ none)
    (buffs' buffs'' : List (List Char)) :
    inForce (buffs' ++ buffs) = inForce (buffs'' ++ buffs) := by
  rcases hfirst : buffs.findSome? directive with - | d
  · exact absurd (List.findSome?_eq_none_iff.1 hfirst buff hmem) hdir
  obtain ⟨l₁, c, l₂, hbuffs, hc, -⟩ := List.findSome?_eq_some_iff.1 hfirst
  rcases hlast : lastOwn buffs with - | mact
  · -- the own action of that directive is among those of `buffs`
    rw [hbuffs, show l₁ ++ c :: l₂ = l₁ ++ ([c] ++ l₂) from rfl, lastOwn_append, lastOwn_append,
      Option.or_eq_none_iff, Option.or_eq_none_iff, lastOwn_of_some hc] at hlast
    exact absurd hlast.1.2 (hown d hfirst)
  · rw [inForce_append, inForce_append, hlast]
    rfl

/-- If the first directive behind has no own action, it shows which one is in force. -/
theorem entry_first (h : TableOf around (before ++ after) acts) {d : List Char × List Char}
    (hfirst : after.findSome? directive = some d) (hown : ownAction d.2 = none) :
    acts (getSyscallNum d.1) = inForce before := by
  obtain ⟨l₁, buff, l₂, hafter, hd, hnone⟩ := List.findSome?_eq_some_iff.1 hfirst
  have hskip : lastOwn (l₁ ++ [buff]) = none := by
    rcases hlast : lastOwn (l₁ ++ [buff]) with - | mact
    · rfl
    · obtain ⟨d', ⟨b, hmem, hd'⟩, hown'⟩ := exists_of_lastOwn hlast
      rcases List.mem_append.1 hmem with hmem | hmem
      · rw [hnone b hmem] at hd'
        cases hd'
      · rw [List.mem_singleton.1 hmem, hd, Option.some.injEq] at hd'
        rw [← hd', hown] at hown'
        cases hown'
  rw [h.entry (before ++ l₁) buff l₂ d (by rw [hafter, List.append_assoc]) hd, List.append_assoc,
    inForce_append, hskip]
  rfl

/-- Pieces without a name of their own leave the table as it is. -/
theorem Inert.sameTable (h : Inert around before stray after)
    (hwith : TableOf around (before ++ stray ++ after) acts)
    (hwithout : TableOf around (before ++ after) acts') {n : ℤ} (hn : InTable n) :
    acts n = acts' n := by
  by_cases hmem : n ∈ numbersOf (before ++ stray ++ after)
  · obtain ⟨buff, hbuff, d, hd, rfl⟩ := mem_numbersOf.1 hmem
    rcases List.mem_append.1 hbuff with hbuff | hbuff
    · rcases List.mem_append.1 hbuff with hbuff | hbuff
      · obtain ⟨pre, post, rfl⟩ := List.append_of_mem hbuff
        rw [hwith.entry pre buff (post ++ stray ++ after) d (by simp) hd,
          hwithout.entry pre buff (post ++ after) d (by simp) hd]
      · -- a call of the table is not named there
        exact absurd (inTable_getSyscallNum_iff.1 hn) (h.unknown d.1 (List.mem_filterMap.2
          ⟨buff, hbuff, by rw [hd]; rfl⟩))
    · obtain ⟨pre, post, rfl⟩ := List.append_of_mem hbuff
      rw [hwith.entry (before ++ stray ++ pre) buff post d (by simp) hd,
        hwithout.entry (before ++ pre) buff post d (by simp) hd,
        List.append_assoc (before ++ stray), List.append_assoc before pre]
      rcases h.inForce with hsame | hown
      · rw [inForce_append, hsame, ← inForce_append]
      · refine inForce_of_own (fun d' hfirst ↦ hown d' ?_) (List.mem_append_right _
          (List.mem_singleton_self buff)) (by simp [hd]) _ _
        rw [show pre ++ buff :: post = pre ++ [buff] ++ post by simp, List.findSome?_append, hfirst]
        rfl
  · rw [hwith.other n hmem, hwithout.other n fun hmem' ↦ hmem ?_]
    rw [numbersOf_append] at hmem'
    rw [numbersOf_append, numbersOf_append]
    exact (List.mem_append.1 hmem').elim
      (fun hbefore ↦ List.mem_append_left _ (List.mem_append_left _ hbefore))
      fun hafter ↦ List.mem_append_right _ hafter

/-- And those that do leave it are of this kind. -/
theorem inert_of_sameTable (hacc : Accepted (emptyActions around) (before ++ stray ++ after))
    (hwith : TableOf around (before ++ stray ++ after) acts)
    (hwithout : TableOf around (before ++ after) acts')
    (hsame : ∀ n, InTable n → acts n = acts' n) : Inert around before stray after := by
  obtain ⟨hnodup, hempty⟩ := hacc
  have hsplit : numbersOf (before ++ stray ++ after) =
      numbersOf before ++ numbersOf stray ++ numbersOf after := by
    rw [numbersOf_append, numbersOf_append]
  rw [hsplit] at hnodup
  have hunknown : ∀ key ∈ keysOf stray, ¬ KnownName key := by
    intro key hkey hknown
    have hin := inTable_getSyscallNum_iff.2 hknown
    have hmem : getSyscallNum key ∈ numbersOf stray := List.mem_map_of_mem hkey
    obtain ⟨buff, hbuff, d, hd, hnum⟩ := mem_numbersOf.1 hmem
    obtain ⟨pre, post, rfl⟩ := List.append_of_mem hbuff
    have hentry := hwith.entry (before ++ pre) buff (post ++ after) d (by simp) hd
    rw [hnum, hsame _ hin, hwithout.other _ fun hmem' ↦ ?_, emptyActions, if_pos hin] at hentry
    · exact inForce_ne_noVal _ hentry.symm
    · rw [numbersOf_append, List.mem_append] at hmem'
      rw [List.nodup_append, List.nodup_append] at hnodup
      rcases hmem' with hbefore | hafter
      · exact hnodup.1.2.2 _ hbefore _ hmem rfl
      · exact hnodup.2.2 _ (List.mem_append_right _ hmem) _ hafter rfl
  refine ⟨⟨hsplit ▸ hnodup, hempty⟩, hunknown, ?_⟩
  rcases hlast : lastOwn stray with - | mact
  · refine .inl ?_
    rw [inForce_append, hlast]
    rfl
  -- the entry `-1` is used by then, so that the directive behind names a call
  obtain ⟨d₀, ⟨buff₀, hmem₀, hd₀⟩, -⟩ := exists_of_lastOwn hlast
  have hused : (-1 : ℤ) ∈ numbersOf stray := by
    rw [← getSyscallNum_of_not_known (hunknown d₀.1 (List.mem_filterMap.2
      ⟨buff₀, hmem₀, by rw [hd₀]; rfl⟩))]
    exact mem_numbersOf.2 ⟨buff₀, hmem₀, d₀, hd₀, rfl⟩
  refine or_iff_not_imp_left.2 fun hne d hfirst hown ↦ hne ?_
  have hin : InTable (getSyscallNum d.1) := by
    refine inTable_getSyscallNum_iff.2 (not_not.1 fun hno ↦ ?_)
    obtain ⟨buff, hmem, hd⟩ := List.exists_of_findSome?_eq_some hfirst
    exact (List.nodup_append.1 hnodup).2.2 _ (List.mem_append_right _ hused) _
      (mem_numbersOf.2 ⟨buff, hmem, d, hd, getSyscallNum_of_not_known hno⟩) rfl
  rw [← entry_first hwith hfirst hown, hsame _ hin, entry_first hwithout hfirst hown]

end Comments

/-- **Comments.** To remove a comment leaves the outcome as it is exactly where the file without it
is rejected, or its pieces behind the first are inert. -/
theorem sameLoad_iff (around : Actions) {file : List Char} {pre post : List (List Char)}
    {line : List Char} (hfile : Text.linesOf '\n' file = pre ++ line :: post)
    (hline : line.head? = some '#') :
    SameLoad (loadConfig around file) (loadConfig around (pre ++ post).flatten) ↔
      (Accepted (emptyActions around) (pre.flatMap pieces ++ post.flatMap pieces) →
        Inert around (pre.flatMap pieces) (pieces line).tail (post.flatMap pieces)) := by
  have htext : Text.IsText '\n' (pre ++ line :: post) := hfile ▸ Text.isText_linesOf '\n' file
  obtain ⟨buff, hbuff, hpieces⟩ := pieces_comment hline
  have hwith : loadConfig around file = loaded around
      (pre.flatMap pieces ++ (pieces line).tail ++ post.flatMap pieces) := by
    rw [loadConfig_eq, pieces_eq_flatMap, hfile, List.flatMap_append, List.flatMap_cons, hpieces,
      List.cons_append, loaded_skip around hbuff, List.tail_cons, List.append_assoc]
  have hwithout : loadConfig around (pre ++ post).flatten = loaded around
      (pre.flatMap pieces ++ post.flatMap pieces) := by
    rw [loadConfig_eq, pieces_flatten htext.remove, List.flatMap_append]
  rw [hwith, hwithout]
  generalize pre.flatMap pieces = before
  generalize post.flatMap pieces = after
  generalize (pieces line).tail = stray
  by_cases hacc : Accepted (emptyActions around) (before ++ after)
  · obtain ⟨acts', hload', htable'⟩ := loaded_of_accepted hacc
    rw [hload', imp_iff_right hacc]
    by_cases hall : Accepted (emptyActions around) (before ++ stray ++ after)
    · obtain ⟨acts, hload, htable⟩ := loaded_of_accepted hall
      rw [hload]
      exact ⟨fun h ↦ inert_of_sameTable hall htable htable' h.sameTable,
        fun h ↦ .ok fun n hn ↦ h.sameTable htable htable' hn⟩
    · rw [loaded_of_not_accepted hall]
      exact iff_of_false (fun h ↦ nomatch h) fun h ↦ hall h.accepted
  · rw [loaded_of_not_accepted hacc, loaded_of_not_accepted fun hall ↦ hacc hall.remove]
    exact iff_of_true (.error _) fun h ↦ absurd h hacc

/-- A comment that hides a directive from its reader, but not from `load_config`. -/
def longComment : List Char := '#' :: List.replicate 98 '-' ++ "read=ALLOW_OS\n".toList

theorem linesOf_longComment : Text.linesOf '\n' longComment = [] ++ longComment :: [] := by decide

theorem sameLoad_iff_longComment :
    SameLoad (loadConfig (fun _ ↦ 0) longComment)
        (loadConfig (fun _ ↦ 0) (([] : List (List Char)) ++ []).flatten) ↔
      (Accepted (emptyActions fun _ ↦ 0) ([].flatMap pieces ++ [].flatMap pieces) →
        Inert (fun _ ↦ 0) ([].flatMap pieces) (pieces longComment).tail ([].flatMap pieces)) :=
  sameLoad_iff (fun _ ↦ 0) linesOf_longComment rfl

/-- It gives `read` an action. -/
theorem not_sameLoad : ¬ ∀ (around : Actions) (file : List Char) (pre post : List (List Char))
    (line : List Char), Text.linesOf '\n' file = pre ++ line :: post → line.head? = some '#' →
      SameLoad (loadConfig around file) (loadConfig around (pre ++ post).flatten) := by
  intro h
  have hsame := h (fun _ ↦ 0) longComment [] [] longComment linesOf_longComment rfl
  have hpieces : pieces longComment =
      ['#' :: List.replicate 98 '-', "read=ALLOW_OS\n".toList] := by decide +kernel
  have hacc : Accepted (emptyActions fun _ ↦ 0)
      ['#' :: List.replicate 98 '-', "read=ALLOW_OS\n".toList] :=
    (accepted_iff_of_known (by decide)).2 (by decide)
  obtain ⟨acts, hload, htable⟩ := loaded_of_accepted hacc
  have hnothing : loadConfig (fun _ ↦ 0) (([] : List (List Char)) ++ []).flatten =
      .ok (emptyActions fun _ ↦ 0) := rfl
  rw [loadConfig_eq, hpieces, hload, hnothing] at hsame
  have hin : InTable 0 := inTable_iff.2 (by decide)
  have hread : acts 0 = NO_VAL := (hsame.sameTable 0 hin).trans (if_pos hin)
  have hentry := htable.entry ['#' :: List.replicate 98 '-'] "read=ALLOW_OS\n".toList []
    ("read".toList, "ALLOW_OS\n".toList) rfl (by decide)
  have hnum : getSyscallNum "read".toList = 0 := by decide
  rw [hnum, hread] at hentry
  exact absurd hentry (by decide)

end ReferenceMonitor
