import Mathlib.Data.String.Basic
import Capabilities.Proofs.Text.Blank
import Capabilities.Text.Slice

/-!
# Cutting a text at byte offsets

An offset at which a text can be cut is the width of a beginning of the text, and beginnings of a
text are ordered by their widths. So a slice is what stands between two beginnings, slices that
meet are put together by appending, and a slice between two offsets lies in every slice around it.
-/

namespace Capabilities.Text

open String

variable {text before rest stretch inner next : List Char} {start stop first last middle : Nat}

/-! ### Beginnings -/

theorem dropBytes?_eq_some_iff :
    dropBytes? start text = some rest ↔
      ∃ before, text = before ++ rest ∧ utf8Len before = start := by
  fun_induction dropBytes? start text with
  | case1 text =>
    constructor
    · rintro ⟨rfl⟩
      exact ⟨[], rfl, rfl⟩
    · rintro ⟨before, rfl, hwidth⟩
      rw [utf8Len_eq_zero.1 hwidth]
      rfl
  | case2 n =>
    refine ⟨nofun, ?_⟩
    rintro ⟨before, htext, hwidth⟩
    obtain ⟨rfl, rfl⟩ := List.append_eq_nil_iff.1 htext.symm
    cases hwidth
  | case3 n c behind hfits ih =>
    rw [ih]
    constructor
    · rintro ⟨before, rfl, hwidth⟩
      refine ⟨c :: before, rfl, ?_⟩
      rw [utf8Len_cons, hwidth, Nat.sub_add_cancel hfits]
    · rintro ⟨before, htext, hwidth⟩
      cases before with
      | nil => cases hwidth
      | cons d before =>
        obtain ⟨rfl, rfl⟩ := List.cons_eq_cons.1 htext
        rw [utf8Len_cons] at hwidth
        exact ⟨before, rfl, Nat.eq_sub_of_add_eq hwidth⟩
  | case4 n c behind hover =>
    refine ⟨nofun, ?_⟩
    rintro ⟨before, htext, hwidth⟩
    cases before with
    | nil => cases hwidth
    | cons d before =>
      obtain ⟨rfl, -⟩ := List.cons_eq_cons.1 htext
      exact absurd ((Nat.le_add_left _ _).trans_eq hwidth) hover

theorem takeBytes?_eq_some_iff :
    takeBytes? stop text = some before ↔ before <+: text ∧ utf8Len before = stop := by
  fun_induction takeBytes? stop text generalizing before with
  | case1 text =>
    constructor
    · rintro ⟨rfl⟩
      exact ⟨List.nil_prefix, rfl⟩
    · rintro ⟨-, hwidth⟩
      rw [utf8Len_eq_zero.1 hwidth]
  | case2 n =>
    refine ⟨nofun, ?_⟩
    rintro ⟨hbegins, hwidth⟩
    rw [List.prefix_nil.1 hbegins] at hwidth
    cases hwidth
  | case3 n c behind hfits ih =>
    rw [Option.map_eq_some_iff]
    constructor
    · rintro ⟨front, hfront, rfl⟩
      obtain ⟨hbegins, hwidth⟩ := ih.1 hfront
      refine ⟨List.cons_prefix_cons.2 ⟨rfl, hbegins⟩, ?_⟩
      rw [utf8Len_cons, hwidth, Nat.sub_add_cancel hfits]
    · rintro ⟨hbegins, hwidth⟩
      cases before with
      | nil => cases hwidth
      | cons d front =>
        obtain ⟨rfl, hfront⟩ := List.cons_prefix_cons.1 hbegins
        rw [utf8Len_cons] at hwidth
        exact ⟨front, ih.2 ⟨hfront, Nat.eq_sub_of_add_eq hwidth⟩, rfl⟩
  | case4 n c behind hover =>
    refine ⟨nofun, ?_⟩
    rintro ⟨hbegins, hwidth⟩
    cases before with
    | nil => cases hwidth
    | cons d front =>
      obtain ⟨rfl, -⟩ := List.cons_prefix_cons.1 hbegins
      exact absurd ((Nat.le_add_left _ _).trans_eq hwidth) hover

/-- Of two beginnings of a text the narrower one begins the other. -/
theorem prefix_of_utf8Len_le {front : List Char} (hbefore : before <+: text)
    (hfront : front <+: text) (h : utf8Len before ≤ utf8Len front) : before <+: front := by
  rcases List.prefix_or_prefix_of_prefix hbefore hfront with hle | hge
  · exact hle
  · obtain ⟨more, rfl⟩ := hge
    rw [utf8Len_append] at h
    have hmore : more = [] := utf8Len_eq_zero.1 (by omega)
    exact ⟨[], by rw [hmore, List.append_nil, List.append_nil]⟩

/-- Beginnings of a text of the same width are the same. -/
theorem eq_of_utf8Len_eq {front : List Char} (hbefore : before <+: text) (hfront : front <+: text)
    (h : utf8Len before = utf8Len front) : before = front :=
  (prefix_of_utf8Len_le hbefore hfront h.le).eq_of_length_le
    (prefix_of_utf8Len_le hfront hbefore h.ge).length_le

/-! ### Slices -/

/-- A slice is what stands between two beginnings of the text. -/
theorem slice?_eq_some_iff :
    slice? text start stop = some stretch ↔
      ∃ before, before ++ stretch <+: text ∧ utf8Len before = start ∧
        utf8Len before + utf8Len stretch = stop := by
  unfold slice?
  constructor
  · intro h
    obtain ⟨hle, h⟩ := Option.ite_none_right_eq_some.1 h
    obtain ⟨rest, hdrop, htake⟩ := Option.bind_eq_some_iff.1 h
    obtain ⟨before, rfl, rfl⟩ := dropBytes?_eq_some_iff.1 hdrop
    obtain ⟨hbegins, hwidth⟩ := takeBytes?_eq_some_iff.1 htake
    exact ⟨before, List.prefix_append_right_inj _ |>.2 hbegins, rfl, by omega⟩
  · rintro ⟨before, ⟨after, rfl⟩, rfl, rfl⟩
    rw [if_pos (Nat.le_add_right _ _), Option.bind_eq_some_iff]
    refine ⟨stretch ++ after, dropBytes?_eq_some_iff.2 ⟨before, List.append_assoc _ _ _, rfl⟩, ?_⟩
    rw [takeBytes?_eq_some_iff]
    exact ⟨List.prefix_append _ _, by omega⟩

theorem le_of_slice? (h : slice? text start stop = some stretch) : start ≤ stop := by
  obtain ⟨before, -, rfl, rfl⟩ := slice?_eq_some_iff.1 h
  exact Nat.le_add_right _ _

theorem le_utf8Len_of_slice? (h : slice? text start stop = some stretch) :
    stop ≤ utf8Len text := by
  obtain ⟨before, hbegins, -, rfl⟩ := slice?_eq_some_iff.1 h
  rw [← utf8Len_append]
  exact utf8Len_le_of_prefix hbegins

/-- Only the slice of no width is empty. -/
theorem lt_of_slice? (h : slice? text start stop = some stretch) (hne : stretch ≠ []) :
    start < stop := by
  obtain ⟨before, -, rfl, rfl⟩ := slice?_eq_some_iff.1 h
  have hwidth : utf8Len stretch ≠ 0 := mt utf8Len_eq_zero.1 hne
  omega

/-- Slices that meet make up one. -/
theorem slice?_append (h : slice? text start middle = some stretch)
    (hnext : slice? text middle stop = some next) :
    slice? text start stop = some (stretch ++ next) := by
  obtain ⟨before, hbefore, rfl, rfl⟩ := slice?_eq_some_iff.1 h
  obtain ⟨front, hfront, hwidth, rfl⟩ := slice?_eq_some_iff.1 hnext
  have hsame : front = before ++ stretch :=
    eq_of_utf8Len_eq ((List.prefix_append _ _).trans hfront) hbefore
      (by rw [hwidth, utf8Len_append])
  subst hsame
  refine slice?_eq_some_iff.2 ⟨before, ?_, rfl, ?_⟩
  · rwa [← List.append_assoc]
  · simp only [utf8Len_append, Nat.add_assoc]

/-- What lies between two offsets lies in every slice around them. -/
theorem infix_of_slice? (h : slice? text start stop = some stretch)
    (hinner : slice? text first last = some inner) (hfirst : start ≤ first) (hlast : last ≤ stop) :
    inner <:+: stretch := by
  obtain ⟨before, hbefore, rfl, rfl⟩ := slice?_eq_some_iff.1 h
  obtain ⟨front, hfront, rfl, rfl⟩ := slice?_eq_some_iff.1 hinner
  obtain ⟨lead, rfl⟩ : before <+: front :=
    prefix_of_utf8Len_le ((List.prefix_append _ _).trans hbefore)
      ((List.prefix_append _ _).trans hfront) hfirst
  have hwhole : before ++ lead ++ inner <+: before ++ stretch :=
    prefix_of_utf8Len_le hfront hbefore (by simpa only [utf8Len_append] using hlast)
  rw [List.append_assoc, List.prefix_append_right_inj] at hwhole
  exact (List.suffix_append lead inner).isInfix.trans hwhole.isInfix

/-- An offset at which the text can be cut cuts a slice around it. -/
theorem slice?_of_append (h : slice? text start stop = some stretch)
    (hnext : slice? text middle stop = some next) (hmiddle : start ≤ middle) :
    ∃ lead, slice? text start middle = some lead ∧ stretch = lead ++ next := by
  obtain ⟨before, hbefore, rfl, rfl⟩ := slice?_eq_some_iff.1 h
  obtain ⟨front, hfront, rfl, hstop⟩ := slice?_eq_some_iff.1 hnext
  obtain ⟨lead, rfl⟩ : before <+: front :=
    prefix_of_utf8Len_le ((List.prefix_append _ _).trans hbefore)
      ((List.prefix_append _ _).trans hfront) hmiddle
  have hsame : before ++ lead ++ next = before ++ stretch :=
    eq_of_utf8Len_eq hfront hbefore (by rw [utf8Len_append, hstop, utf8Len_append])
  rw [List.append_assoc, List.append_right_inj] at hsame
  refine ⟨lead, slice?_eq_some_iff.2 ⟨before, ?_, rfl, (utf8Len_append _ _).symm⟩, hsame.symm⟩
  exact (List.prefix_append _ _).trans hfront

end Capabilities.Text
