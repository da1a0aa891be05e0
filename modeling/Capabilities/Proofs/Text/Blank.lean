import Mathlib.Data.List.DropRight
import Capabilities.Text.Blank

/-!
# Trimming and lines

Blanks at the ends of a text do not matter to trimming, and a text that neither begins nor ends
with a blank is trimmed already. A text without line feeds is a line, and a line feed ends one.
-/

namespace Capabilities.Text

variable {text before after line rest : List Char} {mark : Char}

/-! ### Trimming -/

theorem trimStart_blank_append (h : ∀ c ∈ before, isBlank c = true) (text : List Char) :
    trimStart (before ++ text) = trimStart text :=
  List.dropWhile_append_of_pos h

theorem trimEnd_append_blank (h : ∀ c ∈ after, isBlank c = true) (text : List Char) :
    trimEnd (text ++ after) = trimEnd text := by
  have hreverse : ∀ c ∈ after.reverse, isBlank c = true :=
    fun c hc => h c (List.mem_reverse.1 hc)
  unfold trimEnd
  rw [List.reverse_append, List.dropWhile_append_of_pos hreverse]

theorem trim_blank_append (before : List Char) (h : ∀ c ∈ before, isBlank c = true)
    (text : List Char) : trim (before ++ text) = trim text := by
  unfold trim
  rw [trimStart_blank_append h]

theorem trim_append_blank (h : ∀ c ∈ after, isBlank c = true) (text : List Char) :
    trim (text ++ after) = trim text := by
  unfold trim trimStart
  rw [List.dropWhile_append]
  split
  · rename_i hnil
    rw [List.isEmpty_iff] at hnil
    rw [hnil, List.dropWhile_eq_nil_iff.2 h]
  · exact trimEnd_append_blank h _

theorem trimStart_of_head? (h : ∀ c ∈ text.head?, isBlank c = false) : trimStart text = text := by
  cases text with
  | nil => rfl
  | cons c rest =>
    unfold trimStart
    rw [List.dropWhile_cons_of_neg]
    rw [h c rfl]
    exact Bool.false_ne_true

theorem trimEnd_of_getLast? (h : ∀ c ∈ text.getLast?, isBlank c = false) :
    trimEnd text = text := by
  refine List.rdropWhile_eq_self_iff.2 fun hne => ?_
  rw [h _ (List.getLast?_eq_some_getLast hne)]
  exact Bool.false_ne_true

/-- What has no blank at its ends is trimmed. -/
theorem trim_of_ends (hhead : ∀ c ∈ text.head?, isBlank c = false)
    (hlast : ∀ c ∈ text.getLast?, isBlank c = false) : trim text = text := by
  unfold trim
  rw [trimStart_of_head? hhead, trimEnd_of_getLast? hlast]

/-- What is trimmed has no blank at its front. -/
theorem head?_of_trim (h : trim text = text) : ∀ c ∈ text.head?, isBlank c = false := by
  intro c hc
  cases text with
  | nil => cases hc
  | cons first rest =>
    cases hc
    by_contra hblank
    rw [Bool.not_eq_false] at hblank
    have hlength := congrArg List.length h
    have hshorter : (trim (c :: rest)).length ≤ rest.length := by
      have hdrop : trim (c :: rest) = trim rest := trim_blank_append [c] (by simpa) rest
      rw [hdrop]
      exact ((List.rdropWhile_prefix ..).length_le).trans (List.dropWhile_suffix _).length_le
    simp only [List.length_cons] at hlength
    omega

/-- What is trimmed has no blank at its end. -/
theorem getLast?_of_trim (h : trim text = text) : ∀ c ∈ text.getLast?, isBlank c = false := by
  intro c hc
  have hne : text ≠ [] := by
    rintro rfl
    cases hc
  rw [trim, trimStart_of_head? (head?_of_trim h)] at h
  have hlast := List.rdropWhile_eq_self_iff.1 h hne
  rw [List.getLast?_eq_some_getLast hne, Option.mem_some_iff] at hc
  rw [hc] at hlast
  exact Bool.eq_false_iff.2 hlast

/-! ### Affixes -/

theorem dropLeading?_append (lead text : List Char) :
    dropLeading? lead (lead ++ text) = some text := by
  unfold dropLeading?
  rw [if_pos (List.isPrefixOf_iff_prefix.2 (List.prefix_append _ _)), List.drop_left]

theorem dropTrailing?_append (ending text : List Char) :
    dropTrailing? ending (text ++ ending) = some text := by
  unfold dropTrailing?
  rw [if_pos (List.isSuffixOf_iff_suffix.2 (List.suffix_append _ _)), List.length_append,
    Nat.add_sub_cancel, List.take_left]

/-! ### Lines -/

theorem split_append_cons (h : mark ∉ line) (rest : List Char) :
    split mark (line ++ mark :: rest) = line :: split mark rest := by
  induction line with
  | nil => simp [split]
  | cons c line ih =>
    rw [List.mem_cons, not_or] at h
    have hne : (c == mark) = false := beq_eq_false_iff_ne.2 (Ne.symm h.1)
    simp only [List.cons_append, split, hne, ih h.2]
    rfl

theorem split_ne_nil (mark : Char) (text : List Char) : split mark text ≠ [] := by
  cases text with
  | nil => exact List.cons_ne_nil _ _
  | cons c rest =>
    unfold split
    split
    · exact List.cons_ne_nil _ _
    · split <;> exact List.cons_ne_nil _ _

theorem joinLines_append_singleton {earlier : List (List Char)} (h : earlier ≠ [])
    (line : List Char) : joinLines (earlier ++ [line]) = joinLines earlier ++ '\n' :: line := by
  induction earlier with
  | nil => exact absurd rfl h
  | cons first earlier ih =>
    cases earlier with
    | nil => rfl
    | cons next earlier =>
      have hrest := ih (List.cons_ne_nil _ _)
      simp only [List.cons_append] at hrest
      simp only [List.cons_append, joinLines, hrest, List.append_assoc]

theorem head?_joinLines {lines : List (List Char)} (hfirst : line ∈ lines.head?)
    (hne : line ≠ []) : (joinLines lines).head? = line.head? := by
  cases lines with
  | nil => cases hfirst
  | cons first lines =>
    cases hfirst
    cases lines with
    | nil => rfl
    | cons next lines => exact List.head?_append_of_ne_nil _ hne

theorem getLast?_joinLines {lines : List (List Char)} (hlast : line ∈ lines.getLast?)
    (hne : line ≠ []) : (joinLines lines).getLast? = line.getLast? := by
  obtain ⟨earlier, last, rfl⟩ := List.eq_nil_or_concat' lines |>.resolve_left (by
    rintro rfl
    cases hlast)
  rw [List.getLast?_concat] at hlast
  cases hlast
  by_cases hearlier : earlier = []
  · rw [hearlier]
    rfl
  · rw [joinLines_append_singleton hearlier,
      List.getLast?_append_of_ne_nil _ (List.cons_ne_nil _ _), List.getLast?_cons_of_ne_nil hne]

end Capabilities.Text
