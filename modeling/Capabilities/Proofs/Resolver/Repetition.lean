import Capabilities.Proofs.Resolver.Warnings

/-!
# Which problems of files are kept

A problem of a file is kept unless the same problem was kept for the same file. Whether it is the
same is decided on one text, which is the name of the file, the separator, and the message. So what
is kept of a series of problems are those with a text of their own, each at its first place.

The text does not always tell the file and the warning. It does so if the names in the warnings do
not contain the separator, whatever the names of the files are: a message is then cut by the
separator in the places that its wording says, and what is in front of it is the name of the file.
If a name contains the separator, two problems may have one text, and the second one is lost.
-/

namespace Capabilities.Resolver

/-! ### Series of problems -/

/-- A problem with the file that it is reported for. -/
structure Problem where
  file : String
  warning : Warning
deriving DecidableEq, Repr

namespace Problem

/-- The text under which a problem is remembered. -/
def text (problem : Problem) : String := problemText problem.file problem.warning

def diagnostic (problem : Problem) : Diagnostic := .of (some problem.file) problem.warning

/-- Whether two problems are remembered under one text. -/
def sameText (problem other : Problem) : Bool := problem.text == other.text

theorem diagnostic_injective {problem other : Problem}
    (h : problem.diagnostic = other.diagnostic) : problem = other := by
  cases problem
  cases other
  simp only [diagnostic, Diagnostic.of, Diagnostic.mk.injEq, Option.some.injEq] at h
  obtain ⟨rfl, -, -, rfl⟩ := h
  rfl

end Problem

def State.warnFiles (state : State) (problems : List Problem) : State :=
  problems.foldl (fun state problem => state.warnFile problem.file problem.warning) state

/-- What a series of problems adds to the diagnostics: those of its problems whose text is new, each
    text once. -/
theorem State.diagnostics_warnFiles (problems : List Problem) (state : State) :
    (state.warnFiles problems).diagnostics = state.diagnostics ++
      ((problems.filter fun problem => !state.warnedFiles.contains problem.text).eraseDupsBy
        Problem.sameText).map Problem.diagnostic := by
  induction problems generalizing state with
  | nil => simp [warnFiles, List.eraseDupsBy, List.eraseDupsBy.loop]
  | cons problem rest ih =>
    have hstep : state.warnFiles (problem :: rest) =
        (state.warnFile problem.file problem.warning).warnFiles rest := rfl
    rw [hstep, ih]
    by_cases hknown : state.warnedFiles.contains problem.text = true
    · rw [warnFile_of_warned hknown, List.filter_cons_of_neg (by simp [hknown])]
    · rw [warnFile_of_new hknown, List.filter_cons_of_pos (by simp [hknown]),
        List.eraseDupsBy_cons]
      -- the text is known from now on, which is what the first occurrence erases of the rest
      have hrest : (rest.filter fun other => !(⟨state.warnedFiles.names ++ [problem.text]⟩ :
            WarnedSet).contains other.text) =
          (rest.filter fun other => !state.warnedFiles.contains other.text).filter
            fun other => other.sameText problem = false := by
        rw [List.filter_filter]
        apply List.filter_congr
        intro other _
        rw [Bool.eq_iff_iff]
        simp [WarnedSet.contains, Problem.sameText, and_comm]
      rw [List.map_cons, ← hrest]
      exact List.append_assoc _ [problem.diagnostic] _

/-! ### First occurrences -/

theorem eraseDupsBy_sublist {α : Type} (same : α → α → Bool) (items : List α) :
    (items.eraseDupsBy same).Sublist items := by
  match items with
  | [] => exact List.Sublist.refl []
  | first :: rest =>
    rw [List.eraseDupsBy_cons]
    exact .cons_cons first ((eraseDupsBy_sublist same _).trans List.filter_sublist)
termination_by items.length
decreasing_by exact Nat.lt_succ_of_le (List.length_filter_le _ _)

section FirstOccurrences

variable {α β : Type} [DecidableEq α]

/-- An image tells the items of a list apart just when it tells the first one from all others, and
    those apart. -/
theorem injective_cons_iff (f : α → β) (first : α) (rest : List α) :
    (∀ item ∈ first :: rest, ∀ other ∈ first :: rest, f item = f other → item = other) ↔
      (∀ item ∈ rest, f item = f first → item = first) ∧
        ∀ item ∈ rest.filter (!· == first), ∀ other ∈ rest.filter (!· == first),
          f item = f other → item = other := by
  have hmem {item : α} : item ∈ rest.filter (!· == first) ↔ item ∈ rest ∧ item ≠ first := by simp
  constructor
  · intro hinj
    have hlater {item : α} (hitem : item ∈ rest) : item ∈ first :: rest :=
      List.mem_cons_of_mem first hitem
    constructor
    · exact fun item hitem => hinj item (hlater hitem) first List.mem_cons_self
    · exact fun item hitem other hother =>
        hinj item (hlater (hmem.1 hitem).1) other (hlater (hmem.1 hother).1)
  · rintro ⟨hfirst, hrest⟩ item hitem other hother hsame
    by_cases hitem' : item = first
    · subst hitem'
      by_cases hother' : other = item
      · exact hother'.symm
      · exact (hfirst other (List.mem_of_ne_of_mem hother' hother) hsame.symm).symm
    · have hitemRest := List.mem_of_ne_of_mem hitem' hitem
      by_cases hother' : other = first
      · subst hother'
        exact hfirst item hitemRest hsame
      · have hotherRest := List.mem_of_ne_of_mem hother' hother
        exact hrest item (hmem.2 ⟨hitemRest, hitem'⟩) other (hmem.2 ⟨hotherRest, hother'⟩) hsame

/-- First occurrences by an image are the first occurrences just when the image tells the items
    apart. -/
theorem eraseDupsBy_eq_eraseDups_iff [DecidableEq β] (f : α → β) (items : List α) :
    items.eraseDupsBy (fun item other => f item == f other) = items.eraseDups ↔
      ∀ item ∈ items, ∀ other ∈ items, f item = f other → item = other := by
  match items with
  | [] => simp
  | first :: rest =>
    have ih := eraseDupsBy_eq_eraseDups_iff f (rest.filter (!· == first))
    -- both sides drop the same items of the rest if no other item has the image of the first
    have hfilter (hfirst : ∀ item ∈ rest, f item = f first → item = first) :
        (rest.filter fun item => decide ((f item == f first) = false)) =
          rest.filter (!· == first) := by
      apply List.filter_congr
      intro item hitem
      rw [Bool.eq_iff_iff]
      simpa using ⟨fun h hsame => h (congrArg f hsame), fun h hsame => h (hfirst item hitem hsame)⟩
    rw [List.eraseDupsBy_cons, List.eraseDups_cons, List.cons.injEq, eq_self, true_and,
      injective_cons_iff, ← ih]
    constructor
    · intro heq
      have hfirst : ∀ item ∈ rest, f item = f first → item = first := by
        intro item hitem hsame
        apply Decidable.byContradiction
        intro hne
        have hkept : item ∈ (rest.filter (!· == first)).eraseDups :=
          List.mem_eraseDups.2 (List.mem_filter.2 ⟨hitem, by simpa using hne⟩)
        rw [← heq] at hkept
        have hother := (List.mem_filter.1 ((eraseDupsBy_sublist _ _).subset hkept)).2
        simp [hsame] at hother
      rw [hfilter hfirst] at heq
      exact ⟨hfirst, heq⟩
    · rintro ⟨hfirst, hrest⟩
      rw [hfilter hfirst]
      exact hrest
termination_by items.length
decreasing_by exact Nat.lt_succ_of_le (List.length_filter_le _ _)

end FirstOccurrences

/-! ### Texts that the separator cuts -/

/-- What stands between the name of a file and a message. -/
def separator : List Char := [':', ' ']

/-- A text without the separator. -/
def Whole (text : List Char) : Prop := ¬ separator <:+: text

theorem Whole.append {first second : List Char} (hfirst : Whole first) (hsecond : Whole second)
    (hseam : first.getLast? ≠ some ':' ∨ second.head? ≠ some ' ') : Whole (first ++ second) := by
  intro hinside
  rcases List.infix_append_iff_ne_nil.1 hinside with h | h | ⟨left, right, hleft, hright, hcut, h⟩
  · exact hfirst h
  · exact hsecond h
  -- the separator lies across the seam, with one letter on either side
  · obtain ⟨⟨before, rfl⟩, ⟨after, rfl⟩⟩ := h
    rcases left with _ | ⟨colon, _ | ⟨blank, rest⟩⟩
    · exact hleft rfl
    · cases hcut
      simp at hseam
    · simp only [separator, List.cons_append, List.cons.injEq, List.nil_eq, List.append_eq_nil_iff]
        at hcut
      exact hright hcut.2.2.2

theorem whole_of_not_mem {text : List Char} (h : ':' ∉ text) : Whole text :=
  fun hinside => h (hinside.subset List.mem_cons_self)

/-- What is behind the last separator, and what is in front of it, can be told from the text. -/
theorem separated_inj {before before' after after' : List Char} (hafter : Whole after)
    (hafter' : Whole after')
    (h : before ++ separator ++ after = before' ++ separator ++ after') :
    before = before' ∧ after = after' := by
  -- one of the two cuts is not behind the other: a part between them would end in a separator
  have hcut {before before' after after' part : List Char} (hafter : Whole after)
      (hfront : before' ++ separator = before ++ separator ++ part)
      (hback : after = part ++ after') : before = before' ∧ after = after' := by
    rcases List.eq_nil_or_concat part with rfl | ⟨first, blank, rfl⟩
    · exact ⟨by simpa using hfront.symm, hback⟩
    have hlast : (before' ++ [':']) ++ [' '] = (before ++ separator ++ first) ++ [blank] := by
      simpa [separator] using hfront
    obtain ⟨hrest, hblank⟩ := List.append_inj' hlast rfl
    cases hblank
    rcases List.eq_nil_or_concat first with rfl | ⟨inner, colon, rfl⟩
    · have hlast : before' ++ [':'] = (before ++ [':']) ++ [' '] := by
        simpa [separator] using hrest
      cases (List.append_inj' hlast rfl).2
    · rw [List.concat_eq_append, ← List.append_assoc] at hrest
      cases (List.append_inj' hrest rfl).2
      exact absurd ⟨inner, after', by rw [hback]; simp [separator]⟩ hafter
  rcases List.append_eq_append_iff.1 h with ⟨part, hfront, hback⟩ | ⟨part, hfront, hback⟩
  · exact hcut hafter hfront hback
  · obtain ⟨hbefore, hafter⟩ := hcut hafter' hfront hback
    exact ⟨hbefore.symm, hafter.symm⟩

/-- A text in front of which parts without separators are told apart by separators. -/
theorem joined_inj {before before' : List Char} {parts parts' : List (List Char)}
    (hparts : ∀ part ∈ parts, Whole part) (hparts' : ∀ part ∈ parts', Whole part)
    (hlength : parts.length = parts'.length)
    (h : before ++ parts.flatMap (separator ++ ·) = before' ++ parts'.flatMap (separator ++ ·)) :
    before = before' ∧ parts = parts' := by
  induction parts generalizing before before' parts' with
  | nil =>
    obtain rfl := List.eq_nil_of_length_eq_zero hlength.symm
    exact ⟨by simpa using h, rfl⟩
  | cons part rest ih =>
    obtain ⟨part', rest', rfl⟩ := List.exists_cons_of_length_eq_add_one hlength.symm
    have hrest : (before ++ separator ++ part) ++ rest.flatMap (separator ++ ·) =
        (before' ++ separator ++ part') ++ rest'.flatMap (separator ++ ·) := by
      simpa using h
    obtain ⟨hfront, rfl⟩ := ih (fun other hother => hparts other (List.mem_cons_of_mem _ hother))
      (fun other hother => hparts' other (List.mem_cons_of_mem _ hother)) (by simpa using hlength)
      hrest
    obtain ⟨hbefore, rfl⟩ := separated_inj (hparts part List.mem_cons_self)
      (hparts' part' List.mem_cons_self) hfront
    exact ⟨hbefore, rfl⟩

/-! ### Messages -/

namespace Warning

def names : Warning → List String
  | .consumesUndeclared entryName => [entryName]
  | .unresolved name => [name]
  | .outsideModulesDir name modulesDir => [name, modulesDir]
  | _ => []

/-- No name in the message contains the separator. -/
def Plain (warning : Warning) : Prop := ∀ name ∈ warning.names, Whole name.toList

instance (text : List Char) : Decidable (Whole text) := inferInstanceAs (Decidable ¬ _)

instance (warning : Warning) : Decidable warning.Plain :=
  inferInstanceAs (Decidable (∀ name ∈ warning.names, Whole name.toList))

/-- The parts of a message between the separators of its wording. -/
def parts : Warning → List String
  | .outsideModulesDir name modulesDir =>
    ["could not resolve \"" ++ name ++ "\" plugin",
      "expected consumer to be in " ++ modulesDir ++ "/ dir"]
  | warning => [warning.message]

/-- The last letters of a message, which tell what kind of problem it is. -/
def ending : Warning → String
  | .consumesUndeclared _ => "ned"
  | .unresolved _ => "gin"
  | .outsideModulesDir _ _ => "dir"
  | .providesUndeclared => "ion"
  | .ambiguousFreeze _ => "ted"
  | .unattributedRegistration _ => "try"
  | .pathTableUnavailable => "ble"

variable {warning other : Warning}

theorem whole_between {before name after : String} (hbefore : ':' ∉ before.toList)
    (hname : Whole name.toList) (hafter : ':' ∉ after.toList)
    (hnext : after.toList.head? ≠ some ' ') : Whole (before ++ name ++ after).toList := by
  rw [String.toList_append, String.toList_append]
  have hfront : Whole (before.toList ++ name.toList) :=
    (whole_of_not_mem hbefore).append hname (Or.inl fun h => hbefore (List.mem_of_getLast? h))
  exact hfront.append (whole_of_not_mem hafter) (Or.inr hnext)

theorem not_mem_toDigits (count : Nat) : ':' ∉ Nat.toDigits 10 count := by
  intro hmem
  exact absurd (Nat.isDigit_of_mem_toDigits (by decide) (by decide) hmem) (by decide)

theorem whole_parts (h : warning.Plain) : ∀ part ∈ warning.parts, Whole part.toList := by
  cases warning
  all_goals
    unfold parts message
    simp only [List.mem_cons, List.not_mem_nil, or_false, forall_eq]
  case consumesUndeclared entryName =>
    rw [String.toList_append]
    exact (h entryName List.mem_cons_self).append (whole_of_not_mem (by decide +kernel))
      (Or.inr (by decide +kernel))
  case unresolved name =>
    exact whole_between (by decide +kernel) (h name List.mem_cons_self) (by decide +kernel)
      (by decide +kernel)
  case outsideModulesDir name modulesDir =>
    have hmodulesDir := h modulesDir (List.mem_cons_of_mem name List.mem_cons_self)
    rintro part (rfl | rfl)
    · exact whole_between (by decide +kernel) (h name List.mem_cons_self) (by decide +kernel)
        (by decide +kernel)
    · exact whole_between (by decide +kernel) hmodulesDir (by decide +kernel) (by decide +kernel)
  case providesUndeclared => exact whole_of_not_mem (by decide +kernel)
  case ambiguousFreeze count =>
    apply whole_of_not_mem
    simp [not_mem_toDigits count]
  case unattributedRegistration index =>
    apply whole_of_not_mem
    simp [not_mem_toDigits index]
  case pathTableUnavailable => exact whole_of_not_mem (by decide +kernel)

theorem ending_suffix (warning : Warning) : warning.ending.toList <:+ warning.message.toList := by
  have hlast {front back ending : String} (h : ending.toList <:+ back.toList) :
      ending.toList <:+ (front ++ back).toList := by
    rw [String.toList_append]
    exact h.trans (List.suffix_append _ _)
  cases warning
  all_goals
    unfold ending message
    dsimp only
  case consumesUndeclared => exact hlast (by decide +kernel)
  case unresolved => exact hlast (by decide +kernel)
  case outsideModulesDir => exact hlast (by decide +kernel)
  case providesUndeclared => decide +kernel
  case ambiguousFreeze => exact hlast (by decide +kernel)
  case unattributedRegistration => exact hlast (by decide +kernel)
  case pathTableUnavailable => decide +kernel

theorem length_ending (warning : Warning) : warning.ending.toList.length = 3 := by
  cases warning <;> simp [ending]

theorem length_parts_of_ending (h : warning.ending = other.ending) :
    warning.parts.length = other.parts.length := by
  cases warning <;> cases other <;> simp [ending] at h <;> simp [parts]

theorem toString_nat_inj {count other : Nat} (h : toString count = toString other) :
    count = other := by
  have hdigits : Nat.toDigits 10 count = Nat.toDigits 10 other := by
    simpa [Nat.toString_eq_repr, Nat.toList_repr] using congrArg String.toList h
  calc count = Nat.ofDigitChars 10 (Nat.toDigits 10 count) 0 := Nat.ofDigitChars_ten_toDigits.symm
    _ = Nat.ofDigitChars 10 (Nat.toDigits 10 other) 0 := by rw [hdigits]
    _ = other := Nat.ofDigitChars_ten_toDigits

/-- A warning can be read off the parts of its message and its ending. -/
theorem eq_of_parts (hending : warning.ending = other.ending) (h : warning.parts = other.parts) :
    warning = other := by
  cases warning <;> cases other <;> simp only [ending, String.reduceEq] at hending
  all_goals
    unfold parts message at h
    simp only [List.cons.injEq, and_true, String.append_left_inj, String.append_right_inj] at h
  case consumesUndeclared.consumesUndeclared => rw [h]
  case unresolved.unresolved => rw [h]
  case outsideModulesDir.outsideModulesDir => rw [h.1, h.2]
  case providesUndeclared.providesUndeclared => rfl
  case ambiguousFreeze.ambiguousFreeze => rw [toString_nat_inj h]
  case unattributedRegistration.unattributedRegistration => rw [toString_nat_inj h]
  case pathTableUnavailable.pathTableUnavailable => rfl

end Warning

/-! ### What is recorded -/

namespace Problem

variable {problem other : Problem}

theorem toList_text (problem : Problem) : problem.text.toList = problem.file.toList ++
    (problem.warning.parts.map String.toList).flatMap (separator ++ ·) := by
  obtain ⟨file, warning⟩ := problem
  cases warning
  all_goals
    unfold text problemText Warning.parts Warning.message
    simp [separator]

/-- Problems that are remembered under one text are of one kind. -/
theorem ending_of_text (h : problem.text = other.text) :
    problem.warning.ending = other.warning.ending := by
  have hsuffix (problem : Problem) : problem.warning.ending.toList <:+ problem.text.toList := by
    unfold text problemText
    rw [String.toList_append]
    exact problem.warning.ending_suffix.trans (List.suffix_append _ _)
  obtain ⟨front, hfront⟩ := hsuffix problem
  obtain ⟨front', hfront'⟩ := hsuffix other
  apply String.toList_inj.1
  apply List.append_inj_right' (hfront.trans ((congrArg String.toList h).trans hfront'.symm))
  rw [Warning.length_ending, Warning.length_ending]

/-- If the warnings are plain, the text tells the file and the warning. -/
theorem eq_of_text (hplain : problem.warning.Plain) (hplain' : other.warning.Plain)
    (h : problem.text = other.text) : problem = other := by
  have hending := ending_of_text h
  have hwhole {warning : Warning} (hplain : warning.Plain) :
      ∀ part ∈ warning.parts.map String.toList, Whole part := by
    intro part hpart
    obtain ⟨text, htext, rfl⟩ := List.mem_map.1 hpart
    exact Warning.whole_parts hplain text htext
  have hlength : (problem.warning.parts.map String.toList).length =
      (other.warning.parts.map String.toList).length := by
    simpa using Warning.length_parts_of_ending hending
  obtain ⟨hfile, hparts⟩ := joined_inj (hwhole hplain) (hwhole hplain') hlength
    (by rw [← toList_text, ← toList_text, h])
  have hwarning : problem.warning = other.warning :=
    Warning.eq_of_parts hending ((List.map_inj_right fun _ _ => String.toList_inj.1).1 hparts)
  cases problem
  cases other
  simp only at hwarning hfile
  rw [hwarning, String.toList_inj.1 hfile]

end Problem

/-- Of any series of problems of files, a new session keeps those with a text of their own, at their
    first places and without any other. These are the distinct problems just when no two of them
    have one text, and so it is when the names in the warnings do not contain the separator,
    whatever the names of the files are. -/
theorem recorded_warnFiles (problems : List Problem) :
    let recorded := (State.initial.warnFiles problems).diagnostics
    recorded = (problems.eraseDupsBy Problem.sameText).map Problem.diagnostic ∧
    (recorded = problems.eraseDups.map Problem.diagnostic ↔
      ∀ problem ∈ problems, ∀ other ∈ problems, problem.text = other.text → problem = other) ∧
    ((∀ problem ∈ problems, problem.warning.Plain) →
      recorded = problems.eraseDups.map Problem.diagnostic) := by
  have hrecorded : (State.initial.warnFiles problems).diagnostics =
      (problems.eraseDupsBy Problem.sameText).map Problem.diagnostic := by
    rw [State.diagnostics_warnFiles]
    have hnone : (problems.filter fun problem =>
        !State.initial.warnedFiles.contains problem.text) = problems :=
      List.filter_eq_self.2 fun _ _ => rfl
    rw [hnone]
    rfl
  have hdistinct : (State.initial.warnFiles problems).diagnostics =
      problems.eraseDups.map Problem.diagnostic ↔
      ∀ problem ∈ problems, ∀ other ∈ problems, problem.text = other.text → problem = other := by
    rw [hrecorded, List.map_inj_right fun _ _ => Problem.diagnostic_injective]
    exact eraseDupsBy_eq_eraseDups_iff Problem.text problems
  refine ⟨hrecorded, hdistinct, fun hplain => hdistinct.2 ?_⟩
  intro problem hproblem other hother htext
  exact Problem.eq_of_text (hplain problem hproblem) (hplain other hother) htext

/-- The same problems twice over, in files whose names contain the separator. -/
theorem recorded_plain_problems :
    let problems : List Problem := [⟨"/a.js: b", .providesUndeclared⟩,
      ⟨"/a.js", .outsideModulesDir "fs" "plugins"⟩, ⟨"/a.js: b", .providesUndeclared⟩,
      ⟨"/a.js", .outsideModulesDir "fs" "mods"⟩, ⟨"/a.js", .ambiguousFreeze 2⟩]
    (∀ problem ∈ problems, problem.warning.Plain) ∧
    (State.initial.warnFiles problems).diagnostics = [
      .of (some "/a.js: b") .providesUndeclared,
      .of (some "/a.js") (.outsideModulesDir "fs" "plugins"),
      .of (some "/a.js") (.outsideModulesDir "fs" "mods"),
      .of (some "/a.js") (.ambiguousFreeze 2)] := by
  intro problems
  have hplain : ∀ problem ∈ problems, problem.warning.Plain := by decide +kernel
  refine ⟨hplain, ?_⟩
  rw [(recorded_warnFiles problems).2.2 hplain]
  decide +kernel

/-- Two entry functions in two files: the second problem has the text of the first one, and is
    lost. -/
theorem problem_lost_by_text :
    let problems : List Problem :=
      [⟨"/a.js", .consumesUndeclared "b: main"⟩, ⟨"/a.js: b", .consumesUndeclared "main"⟩]
    problems.eraseDups = problems ∧
    (State.initial.warnFiles problems).diagnostics =
      [.of (some "/a.js") (.consumesUndeclared "b: main")] ∧
    (State.initial.warnFiles problems).diagnostics ≠
      problems.eraseDups.map Problem.diagnostic := by
  decide +kernel

end Capabilities.Resolver
