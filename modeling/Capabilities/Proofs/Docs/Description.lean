import Capabilities.Docs.Description
import Capabilities.Proofs.Text.Blank

/-!
# What a block comment documents

The documentation of a block comment is read off what stands between the marks that open and close
it, whatever that is: a star right behind the opening mark belongs to the mark, each line goes
without its margin, and the lines in front of the first tag make the text. Only the comment with
nothing between its marks is read otherwise. So a text that is set into a comment line by line,
behind the usual margin of stars, is got back as it was.
-/

namespace Capabilities.Docs

open Text

/-! ### What a body documents -/

def bareLines (body : List Char) : List (List Char) := (split '\n' body).map bareLine

/-- A body documents a text if none of its lines asks to be ignored, and the text is what is left
    of the lines in front of the first tag. -/
structure Documents (body text : List Char) : Prop where
  heeded : ∀ line ∈ bareLines body, ¬"@ignore".toList <+: line
  told : ∃ front rest, bareLines body = front ++ rest ∧ (∀ line ∈ front, ¬['@'] <+: line) ∧
    (∀ line ∈ rest.head?, ['@'] <+: line) ∧ text = trim (joinLines front)
  ne_nil : text ≠ []

/-- A body without the star that belongs to the mark in front of it. -/
def withoutStar (body : List Char) : List Char := (dropLeading? ['*'] body).getD body

variable {bare : List (List Char)} {body text line : List Char}

theorem describeLines_eq_some_iff : describeLines bare = some text ↔
    (∀ line ∈ bare, ¬"@ignore".toList <+: line) ∧
      text = trim (joinLines (bare.takeWhile (!isTagged ·))) ∧ text ≠ [] := by
  have hany : bare.any isIgnoring = false ↔ ∀ line ∈ bare, ¬"@ignore".toList <+: line := by
    simp only [List.any_eq_false, isIgnoring, List.isPrefixOf_iff_prefix]
  rw [← hany]
  unfold describeLines
  cases bare.any isIgnoring with
  | true => simp
  | false =>
    simp only [Bool.false_eq_true, if_false, true_and, List.isEmpty_iff]
    constructor
    · intro h
      split at h
      · cases h
      · rename_i hne
        cases h
        exact ⟨rfl, hne⟩
    · rintro ⟨rfl, hne⟩
      rw [if_neg hne]

/-- The lines in front of the first tag are told apart by the tags. -/
theorem takeWhile_isTagged_eq {front rest : List (List Char)}
    (hfront : ∀ line ∈ front, ¬['@'] <+: line) (hrest : ∀ line ∈ rest.head?, ['@'] <+: line) :
    (front ++ rest).takeWhile (!isTagged ·) = front := by
  have huntagged : ∀ line ∈ front, (!isTagged line) = true := by
    intro line hline
    rw [Bool.not_eq_true', isTagged, Bool.eq_false_iff, Ne, List.isPrefixOf_iff_prefix]
    exact hfront line hline
  rw [List.takeWhile_append_of_pos huntagged]
  cases rest with
  | nil => rw [List.takeWhile_nil, List.append_nil]
  | cons line rest =>
    have htagged : ¬(!isTagged line) = true := by
      rw [Bool.not_eq_true', Bool.not_eq_false, isTagged, List.isPrefixOf_iff_prefix]
      exact hrest line rfl
    rw [List.takeWhile_cons_of_neg (p := (!isTagged ·)) htagged, List.append_nil]

theorem documents_iff : Documents body text ↔ describeLines (bareLines body) = some text := by
  rw [describeLines_eq_some_iff]
  constructor
  · rintro ⟨hheeded, ⟨front, rest, hlines, hfront, hrest, htext⟩, hne⟩
    refine ⟨hheeded, ?_, hne⟩
    rw [hlines, takeWhile_isTagged_eq hfront hrest]
    exact htext
  · rintro ⟨hheeded, htext, hne⟩
    refine ⟨hheeded, ⟨_, _, List.takeWhile_append_dropWhile.symm, ?_, ?_, htext⟩, hne⟩
    · intro line hline
      have huntagged := List.mem_takeWhile_imp hline
      rw [Bool.not_eq_true', isTagged, Bool.eq_false_iff, Ne, List.isPrefixOf_iff_prefix]
        at huntagged
      exact huntagged
    · intro line hline
      have htagged := List.head?_dropWhile_not (!isTagged ·) (bareLines body)
      rw [hline] at htagged
      simpa [isTagged] using htagged

/-! ### Lines -/

/-- How a line ends does not matter to what it says. -/
theorem bareLine_ended (line : List Char) :
    bareLine ((dropTrailing? ['\r'] line).getD line) = bareLine line := by
  cases hended : dropTrailing? ['\r'] line with
  | none => rfl
  | some shorter =>
    unfold dropTrailing? at hended
    split at hended
    · rename_i hsuffix
      obtain ⟨front, rfl⟩ := List.isSuffixOf_iff_suffix.1 hsuffix
      cases hended
      have htrim : trim (front ++ ['\r']) = trim front :=
        trim_append_blank (List.forall_mem_singleton.2 rfl) front
      simp only [Option.getD_some, List.length_append, Nat.add_sub_cancel, List.take_left]
      unfold bareLine
      rw [htrim]
    · cases hended

/-- A last line with nothing on it does not matter. -/
theorem describeLines_append_nil (bare : List (List Char)) :
    describeLines (bare ++ [[]]) = describeLines bare := by
  have hignoring : (bare ++ [[]]).any isIgnoring = bare.any isIgnoring := by
    rw [List.any_append]
    exact Bool.or_false _
  have hjoined : trim (joinLines ((bare ++ [[]]).takeWhile (!isTagged ·))) =
      trim (joinLines (bare.takeWhile (!isTagged ·))) := by
    by_cases hall : ∀ line ∈ bare, (!isTagged line) = true
    · rw [List.takeWhile_append_of_pos hall, List.takeWhile_eq_self_iff.2 hall]
      by_cases hne : bare = []
      · rw [hne]
        rfl
      · change trim (joinLines (bare ++ [[]])) = _
        rw [joinLines_append_singleton hne]
        exact trim_append_blank (List.forall_mem_singleton.2 rfl) _
    · rw [List.takeWhile_append, if_neg]
      intro hlength
      refine hall (List.takeWhile_eq_self_iff.1 ?_)
      exact (List.takeWhile_prefix _).eq_of_length hlength
  unfold describeLines
  rw [hignoring, hjoined]

/-- It does not matter how the lines of a body end, nor whether its last line is ended. -/
theorem describeLines_lines (body : List Char) :
    describeLines ((lines body).map bareLine) = describeLines (bareLines body) := by
  obtain ⟨earlier, last, hsplit⟩ := List.eq_nil_or_concat'
    (split '\n' body) |>.resolve_left (split_ne_nil '\n' body)
  have hended : (earlier.map fun line => (dropTrailing? ['\r'] line).getD line).map bareLine =
      earlier.map bareLine := by
    rw [List.map_map]
    exact List.map_congr_left fun line _ => bareLine_ended line
  unfold lines bareLines
  simp only [hsplit, List.dropLast_concat, List.getLast?_concat]
  cases last with
  | nil =>
    rw [hended, List.map_append]
    exact (describeLines_append_nil _).symm
  | cons c line => rw [List.map_append, List.map_append, hended]

/-! ### Marks -/

/-- Between the marks of a block comment stands its body, unless there is nothing between them. -/
theorem withoutMarks_block (h : body ≠ []) :
    withoutMarks ("/*".toList ++ body ++ "*/".toList) = withoutStar body := by
  have htrim : trim ("/*".toList ++ body ++ "*/".toList) = "/*".toList ++ body ++ "*/".toList := by
    refine trim_of_ends ?_ ?_
    · intro c hc
      cases hc
      decide
    · intro c hc
      rw [List.getLast?_append_of_ne_nil _ (by decide)] at hc
      cases hc
      decide
  unfold withoutMarks
  rw [htrim, List.append_assoc]
  dsimp only
  cases body with
  | nil => exact absurd rfl h
  | cons c body =>
    by_cases hstar : c = '*'
    · subst hstar
      have hopened : dropLeading? "/**".toList ("/*".toList ++ ('*' :: body ++ "*/".toList)) =
          some (body ++ "*/".toList) := dropLeading?_append "/**".toList _
      have hwithout : dropLeading? ['*'] ('*' :: body) = some body := dropLeading?_append ['*'] body
      unfold withoutStar
      rw [hopened, Option.getD_some, dropTrailing?_append, Option.getD_some, hwithout,
        Option.getD_some]
    · have hopened : dropLeading? "/**".toList ("/*".toList ++ (c :: body ++ "*/".toList)) =
          none := by
        unfold dropLeading?
        simp [List.isPrefixOf, Ne.symm hstar]
      have hwithout : dropLeading? ['*'] (c :: body) = none := by
        unfold dropLeading?
        simp [List.isPrefixOf, Ne.symm hstar]
      unfold withoutStar
      rw [hopened, Option.getD_none, dropLeading?_append, Option.getD_some, dropTrailing?_append,
        Option.getD_some, hwithout, Option.getD_none]

theorem describe_block (body : String) (h : body ≠ "") (text : String) :
    describe ("/*" ++ body ++ "*/") = some text ↔
      Documents (withoutStar body.toList) text.toList := by
  have hbody : body.toList ≠ [] := by simpa using h
  unfold describe
  rw [String.toList_append, String.toList_append, withoutMarks_block hbody, describeLines_lines,
    documents_iff, Option.map_eq_some_iff]
  constructor
  · rintro ⟨found, hfound, rfl⟩
    rw [hfound, String.toList_ofList]
  · intro hfound
    exact ⟨_, hfound, String.ofList_toList⟩

/-! ### Setting lines into a comment -/

def margined (lines : List (List Char)) : List Char :=
  lines.flatMap (fun line => " * ".toList ++ line ++ ['\n']) ++ [' ']

def shown (lines : List (List Char)) : String :=
  "/*" ++ String.ofList ('*' :: '\n' :: margined lines) ++ "*/"

/-- Lines of text: each is trimmed and none has a tag, and the text neither begins nor ends with
    an empty line. -/
structure Prose (lines : List (List Char)) : Prop where
  trimmed : ∀ line ∈ lines, trim line = line
  single : ∀ line ∈ lines, '\n' ∉ line
  untagged : ∀ line ∈ lines, ¬['@'] <+: line
  begins : ∃ line ∈ lines.head?, line ≠ []
  ends : ∃ line ∈ lines.getLast?, line ≠ []

variable {lines : List (List Char)}

theorem bareLine_margin (h : trim line = line) : bareLine (" * ".toList ++ line) = line := by
  have hblank : ∀ c ∈ [' '], isBlank c = true := List.forall_mem_singleton.2 rfl
  have hdrop : trim (' ' :: line) = line := (trim_blank_append [' '] hblank line).trans h
  have hstar : trim (" * ".toList ++ line) = '*' :: (if line = [] then [] else ' ' :: line) := by
    refine (trim_blank_append [' '] hblank ('*' :: ' ' :: line)).trans ?_
    split
    · rename_i hnil
      rw [hnil]
      decide
    · rename_i hne
      refine trim_of_ends ?_ ?_
      · intro c hc
        cases hc
        decide
      · intro c hc
        rw [List.getLast?_cons_cons, List.getLast?_cons_of_ne_nil hne] at hc
        exact getLast?_of_trim h c hc
  have hslashes : ∀ rest, dropLeading? ['/', '/'] ('*' :: rest) = none := fun _ => rfl
  have hleading : ∀ rest, dropLeading? ['*'] ('*' :: rest) = some rest :=
    fun rest => dropLeading?_append ['*'] rest
  unfold bareLine
  simp only [hstar, hslashes, hleading, Option.getD_none, Option.getD_some]
  split
  · rename_i hnil
    rw [hnil]
    rfl
  · exact hdrop

theorem Prose.ne_nil (h : Prose lines) : lines ≠ [] := by
  rintro rfl
  obtain ⟨line, hline, -⟩ := h.begins
  cases hline

/-- Lines of text put together have no blanks at their ends. -/
theorem Prose.trim_joinLines (h : Prose lines) : trim (joinLines lines) = joinLines lines := by
  obtain ⟨first, hfirst, hbegins⟩ := h.begins
  obtain ⟨last, hlast, hends⟩ := h.ends
  refine trim_of_ends ?_ ?_
  · rw [head?_joinLines hfirst hbegins]
    exact head?_of_trim (h.trimmed first (List.mem_of_mem_head? hfirst))
  · rw [getLast?_joinLines hlast hends]
    exact getLast?_of_trim (h.trimmed last (List.mem_of_getLast? hlast))

theorem split_margined (h : ∀ line ∈ lines, '\n' ∉ line) :
    split '\n' (margined lines) = lines.map (" * ".toList ++ ·) ++ [[' ']] := by
  unfold margined
  induction lines with
  | nil => decide
  | cons line rest ih =>
    have hline : '\n' ∉ " * ".toList ++ line := by
      rw [List.mem_append, not_or]
      exact ⟨by decide, h line List.mem_cons_self⟩
    have hrest := ih fun other hother => h other (List.mem_cons_of_mem _ hother)
    simp only [List.flatMap_cons, List.map_cons, List.cons_append, List.append_assoc,
      List.nil_append] at hrest ⊢
    rw [← List.append_assoc, split_append_cons hline, hrest]

/-- The lines between the marks of a comment that shows lines are these, with an empty one before
    and behind them. -/
theorem bareLines_margined (h : Prose lines) :
    bareLines ('\n' :: margined lines) = [] :: lines ++ [[]] := by
  have hbare : (lines.map (" * ".toList ++ ·)).map bareLine = lines := by
    rw [List.map_map]
    refine (List.map_congr_left fun line hline => ?_).trans (List.map_id lines)
    exact bareLine_margin (h.trimmed line hline)
  have hsplit : split '\n' ('\n' :: margined lines) = [] :: split '\n' (margined lines) :=
    split_append_cons List.not_mem_nil _
  unfold bareLines
  rw [hsplit, split_margined h.single, List.map_cons, List.map_append, hbare]
  rfl

theorem trim_joinLines_margined (h : Prose lines) :
    trim (joinLines ([] :: lines ++ [[]])) = joinLines lines := by
  have hjoined : joinLines ([] :: lines ++ [[]]) = ['\n'] ++ (joinLines lines ++ ['\n']) := by
    rw [List.cons_append, ← joinLines_append_singleton h.ne_nil]
    cases lines <;> rfl
  have hblank : ∀ c ∈ ['\n'], isBlank c = true := List.forall_mem_singleton.2 rfl
  rw [hjoined, trim_blank_append _ hblank, trim_append_blank hblank, h.trim_joinLines]

theorem documents_margined (h : Prose lines) :
    Documents ('\n' :: margined lines) (joinLines lines) := by
  have huntagged : ∀ line ∈ [] :: lines ++ [[]], ¬['@'] <+: line := by
    intro line hline
    simp only [List.cons_append, List.mem_cons, List.mem_append, List.not_mem_nil, or_false]
      at hline
    rcases hline with rfl | hline | rfl
    · decide
    · exact h.untagged line hline
    · decide
  refine ⟨?_, ⟨[] :: lines ++ [[]], [], ?_, huntagged, ?_, (trim_joinLines_margined h).symm⟩, ?_⟩
  · rw [bareLines_margined h]
    exact fun line hline hignoring =>
      huntagged line hline (List.IsPrefix.trans (by decide) hignoring)
  · rw [bareLines_margined h, List.append_nil]
  · intro line hline
    cases hline
  · intro hnil
    obtain ⟨first, hfirst, hbegins⟩ := h.begins
    have hhead := head?_joinLines hfirst hbegins
    rw [hnil] at hhead
    exact hbegins (List.head?_eq_none_iff.1 hhead.symm)

theorem describe_shown (h : Prose lines) :
    describe (shown lines) = some (String.ofList (joinLines lines)) := by
  have hstar : withoutStar ('*' :: '\n' :: margined lines) = '\n' :: margined lines := by
    have hleading : dropLeading? ['*'] ('*' :: '\n' :: margined lines) =
        some ('\n' :: margined lines) := dropLeading?_append ['*'] _
    rw [withoutStar, hleading, Option.getD_some]
  refine (describe_block _ (by simp) _).2 ?_
  rw [String.toList_ofList, String.toList_ofList, hstar]
  exact documents_margined h

/-! ### Comments -/

/-- A block comment documents what its body does, unless there is nothing between its marks; and
    lines set into a comment are what it documents. -/
theorem describes_between_marks (body : String) (lines : List (List Char)) :
    (body ≠ "" → ∀ text : String,
      describe ("/*" ++ body ++ "*/") = some text ↔
        Documents (withoutStar body.toList) text.toList) ∧
    (Prose lines → describe (shown lines) = some (String.ofList (joinLines lines))) :=
  ⟨describe_block body, describe_shown⟩

/-- A body that begins and ends with stars, and lines with stars, slashes and nothing on them. -/
theorem describes_between_marks_starred :
    "** Reads.\r\n *// again * \n * @param x **" ≠ "" ∧
    Documents (withoutStar "** Reads.\r\n *// again * \n * @param x **".toList)
      "Reads.\n// again *".toList ∧
    Prose ["Reads @all".toList, [], "// again *".toList, "*".toList] ∧
    describe (shown ["Reads @all".toList, [], "// again *".toList, "*".toList]) =
      some "Reads @all\n\n// again *\n*" := by
  have hprose : Prose ["Reads @all".toList, [], "// again *".toList, "*".toList] :=
    ⟨by decide, by decide, by decide, ⟨_, rfl, by decide⟩, ⟨_, rfl, by decide⟩⟩
  obtain ⟨hbody, hlines⟩ := describes_between_marks "** Reads.\r\n *// again * \n * @param x **"
    ["Reads @all".toList, [], "// again *".toList, "*".toList]
  exact ⟨by decide, (hbody (by decide) _).1 (by decide +kernel), hprose, hlines hprose⟩

/-- Nothing stands between the marks of the shortest comment, and yet it is described: its one star
    belongs to both marks, is taken for the one in front and then is missing for the one behind. -/
theorem empty_comment_described :
    describe ("/*" ++ "" ++ "*/") = some "/" ∧ ¬∃ text, Documents (withoutStar "".toList) text := by
  refine ⟨by decide +kernel, ?_⟩
  rintro ⟨text, h⟩
  rw [documents_iff] at h
  have hnone : describeLines (bareLines (withoutStar "".toList)) = none := by decide
  rw [hnone] at h
  cases h

end Capabilities.Docs
