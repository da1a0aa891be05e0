import Mathlib.Data.List.Infix
import Capabilities.Proofs.Workspace.Derivation

/-!
# The modules root as a pattern finds it

The modules root of a path is what the first group of the pattern `^(.*/)dir/` captures. A pattern
is matched in several ways, and the way that takes most at the dots is preferred. Here the ways are
listed in the order of preference (`captures`), and `modulesRoot?` is the first of them. The list
holds exactly the roots of the path, the longest first; so the first is the longest, and there is
one just when the modules directory occurs between two slashes before any line feed.
-/

namespace Capabilities.Text

variable {stretch text : List Char}

/-- A text has a stretch in it if it goes on with it somewhere. -/
theorem holds_iff_infix : holds stretch text = true ↔ stretch <:+: text := by
  induction text with
  | nil => simp [holds]
  | cons c rest ih => rw [holds, Bool.or_eq_true, List.isPrefixOf_iff_prefix, ih,
      List.infix_cons_iff]

end Capabilities.Text

namespace Capabilities.Resolver.Config

variable {config : Config} {path root other : String} {text captured : List Char}

/-! ### Matching the pattern -/

/-- What dots can take of a text, with what they leave, most first: any characters but line
    feeds. -/
def dots : List Char → List (List Char × List Char)
  | [] => [([], [])]
  | c :: rest =>
    (if c = '\n' then [] else (dots rest).map fun (taken, left) => (c :: taken, left))
      ++ [([], c :: rest)]

/-- What the group before the modules directory captures in a text, in the order of preference. -/
def captures (config : Config) (text : List Char) : List (List Char) :=
  (dots text).filterMap fun (taken, left) =>
    if ('/' :: config.marker).isPrefixOf left then some (taken ++ ['/']) else none

theorem captures_nil (config : Config) : config.captures [] = [] := rfl

/-- Taking the next character is preferred to leaving it. -/
theorem captures_cons (config : Config) (c : Char) (rest : List Char) :
    config.captures (c :: rest) =
      (if c = '\n' then [] else (config.captures rest).map (c :: ·)) ++
        if c = '/' ∧ config.marker <+: rest then [['/']] else [] := by
  rw [captures, dots, List.filterMap_append]
  congr 1
  · split
    · rfl
    · rw [List.filterMap_map, captures, List.map_filterMap]
      congr 1
      funext ⟨taken, left⟩
      simp only [Function.comp]
      split <;> rfl
  · have hhere : ('/' :: config.marker).isPrefixOf (c :: rest) = true ↔
        c = '/' ∧ config.marker <+: rest := by
      rw [List.isPrefixOf_iff_prefix, List.cons_prefix_cons, eq_comm]
    rw [List.filterMap_cons, List.filterMap_nil]
    simp only [hhere]
    by_cases h : c = '/' ∧ config.marker <+: rest
    · rw [if_pos h, if_pos h]
      rfl
    · rw [if_neg h, if_neg h]

/-- The root is what the preferred match captures. -/
theorem rootFrom?_eq_head? (config : Config) (seen text : List Char) :
    rootFrom? config.marker seen text =
      (config.captures text).head?.map (seen.reverse ++ ·) := by
  induction text generalizing seen with
  | nil => rfl
  | cons c rest ih =>
    have hhere : (c == '/' && config.marker.isPrefixOf rest) = true ↔
        c = '/' ∧ config.marker <+: rest := by
      rw [Bool.and_eq_true, beq_iff_eq, List.isPrefixOf_iff_prefix]
    rw [captures_cons, rootFrom?, ih]
    simp only [hhere]
    by_cases hline : c = '\n'
    · simp [hline]
    · cases hlater : config.captures rest with
      | cons first others => simp [hline]
      | nil =>
        by_cases h : c = '/' ∧ config.marker <+: rest
        · simp [h]
        · simp only [if_neg h, if_neg hline]
          simp [hline]

theorem modulesRoot?_eq_head? (config : Config) (path : String) :
    config.modulesRoot? path = (config.captures path.toList).head?.map String.ofList := by
  rw [modulesRoot?, rootFrom?_eq_head?]
  simp

/-! ### What is captured -/

/-- A text that ends in a slash, holds no line feed, and is followed by the modules directory and
    another slash. -/
theorem mem_captures_iff : captured ∈ config.captures text ↔
    ∃ before, captured = before ++ ['/'] ∧ '\n' ∉ before ∧
      captured ++ config.marker <+: text := by
  induction text generalizing captured with
  | nil =>
    simp only [captures_nil, List.not_mem_nil, false_iff]
    rintro ⟨before, rfl, -, hprefix⟩
    simp at hprefix
  | cons c rest ih =>
    rw [captures_cons, List.mem_append]
    constructor
    · rintro (hlater | hhere)
      · split at hlater
        · cases hlater
        rename_i hline
        obtain ⟨later, hmem, rfl⟩ := List.mem_map.1 hlater
        obtain ⟨before, rfl, hbefore, hprefix⟩ := ih.1 hmem
        refine ⟨c :: before, rfl, ?_, ?_⟩
        · simpa [eq_comm] using ⟨hline, hbefore⟩
        · exact List.cons_prefix_cons.2 ⟨rfl, hprefix⟩
      · split at hhere
        · rename_i hc
          obtain rfl := List.mem_singleton.1 hhere
          exact ⟨[], rfl, List.not_mem_nil, List.cons_prefix_cons.2 ⟨hc.1.symm, hc.2⟩⟩
        · cases hhere
    · rintro ⟨before, rfl, hbefore, hprefix⟩
      cases before with
      | nil =>
        right
        obtain ⟨rfl, hrest⟩ := List.cons_prefix_cons.1 hprefix
        rw [if_pos ⟨rfl, hrest⟩]
        exact List.mem_singleton_self _
      | cons first before =>
        left
        obtain ⟨rfl, hrest⟩ := List.cons_prefix_cons.1 hprefix
        rw [List.mem_cons, not_or] at hbefore
        rw [if_neg (Ne.symm hbefore.1)]
        exact List.mem_map_of_mem (ih.2 ⟨before, rfl, hbefore.2, hrest⟩)

/-- A match that is preferred captures more. -/
theorem captures_descending (config : Config) (text : List Char) :
    (config.captures text).Pairwise fun first second => second.length < first.length := by
  induction text with
  | nil => exact List.Pairwise.nil
  | cons c rest ih =>
    rw [captures_cons, List.pairwise_append]
    refine ⟨?_, ?_, ?_⟩
    · split
      · exact List.Pairwise.nil
      · exact ih.map _ fun _ _ => Nat.succ_lt_succ
    · split <;> simp
    · intro first hfirst second hsecond
      split at hsecond
      · split at hfirst
        · cases hfirst
        · obtain ⟨later, hlater, rfl⟩ := List.mem_map.1 hfirst
          obtain ⟨before, rfl, -⟩ := mem_captures_iff.1 hlater
          rw [List.mem_singleton.1 hsecond]
          simp
      · cases hsecond

/-- The first of a list in descending order is its greatest. -/
theorem head?_eq_some_iff_of_descending {α : Type} {items : List α} {size : α → Nat} {item : α}
    (h : items.Pairwise fun first second => size second < size first) :
    items.head? = some item ↔ item ∈ items ∧ ∀ other ∈ items, size other ≤ size item := by
  cases items with
  | nil => simp
  | cons first rest =>
    rw [List.pairwise_cons] at h
    rw [List.head?_cons, Option.some.injEq]
    constructor
    · rintro rfl
      refine ⟨List.mem_cons_self, ?_⟩
      intro other hother
      rcases List.mem_cons.1 hother with rfl | hrest
      · exact Nat.le_refl _
      · exact Nat.le_of_lt (h.1 other hrest)
    · rintro ⟨hitem, hgreatest⟩
      rcases List.mem_cons.1 hitem with rfl | hrest
      · rfl
      · have hlt := h.1 item hrest
        have hle := hgreatest first List.mem_cons_self
        omega

/-! ### Roots of paths -/

/-- A beginning of a path that ends in a slash, holds no line feed and is followed by the modules
    directory and a slash. -/
def IsRoot (config : Config) (path root : String) : Prop :=
  (∃ before, root = before ++ "/") ∧ '\n' ∉ root.toList ∧
    ∃ after, path = root ++ config.modulesDir ++ "/" ++ after

theorem isRoot_iff : config.IsRoot path root ↔ root.toList ∈ config.captures path.toList := by
  rw [mem_captures_iff]
  constructor
  · rintro ⟨⟨before, rfl⟩, hline, after, rfl⟩
    refine ⟨before.toList, by simp, ?_, after.toList, by simp [marker]⟩
    simpa using hline
  · rintro ⟨before, hroot, hline, after, hpath⟩
    refine ⟨⟨String.ofList before, ?_⟩, ?_, String.ofList after, ?_⟩
    · rw [← String.toList_inj]
      simp [hroot]
    · rw [hroot]
      simpa using hline
    · rw [← String.toList_inj, ← hpath]
      simp [marker]

theorem modulesRoot?_eq_some_iff : config.modulesRoot? path = some root ↔
    config.IsRoot path root ∧ ∀ other, config.IsRoot path other → other.length ≤ root.length := by
  have hhead : config.modulesRoot? path = some root ↔
      (config.captures path.toList).head? = some root.toList := by
    rw [modulesRoot?_eq_head?, Option.map_eq_some_iff]
    constructor
    · rintro ⟨captured, hcaptured, rfl⟩
      rw [hcaptured, String.toList_ofList]
    · intro h
      exact ⟨root.toList, h, String.ofList_toList⟩
  rw [hhead, head?_eq_some_iff_of_descending (captures_descending config path.toList), isRoot_iff]
  refine and_congr_right fun _ => ?_
  simp only [← String.length_toList]
  constructor
  · intro h other hother
    exact h other.toList (isRoot_iff.1 hother)
  · intro h captured hcaptured
    have hle := h (String.ofList captured) (isRoot_iff.2 (by rwa [String.toList_ofList]))
    rwa [String.toList_ofList] at hle

theorem modulesRoot?_eq_none_iff :
    config.modulesRoot? path = none ↔ ∀ root, ¬config.IsRoot path root := by
  simp only [modulesRoot?_eq_head?, Option.map_eq_none_iff, List.head?_eq_none_iff,
    List.eq_nil_iff_forall_not_mem, isRoot_iff]
  constructor
  · intro h root
    exact h root.toList
  · intro h captured hcaptured
    exact h (String.ofList captured) (by rwa [String.toList_ofList])

/-- In a path of one line every occurrence of the modules directory between slashes is behind a
    root. -/
theorem exists_isRoot_iff (hline : '\n' ∉ path.toList) :
    (∃ root, config.IsRoot path root) ↔ '/' :: config.marker <:+: path.toList := by
  constructor
  · rintro ⟨root, ⟨before, rfl⟩, -, after, rfl⟩
    exact ⟨before.toList, after.toList, by simp [marker]⟩
  · rintro ⟨before, after, hpath⟩
    refine ⟨String.ofList (before ++ ['/']), isRoot_iff.2 (mem_captures_iff.2 ?_)⟩
    rw [String.toList_ofList, ← hpath]
    refine ⟨before, rfl, ?_, after, by simp⟩
    intro hmem
    rw [← hpath] at hline
    simp [hmem] at hline

end Capabilities.Resolver.Config

namespace Capabilities.Workspace

open Resolver

variable {config : Config} {path : String}

/-- Which paths lie below the modules directory is told in two ways, which agree. -/
theorem isSome_modulesRoot? (hline : '\n' ∉ path.toList) :
    (config.modulesRoot? path).isSome = Text.holds ('/' :: config.marker) path.toList := by
  rw [Bool.eq_iff_iff, Text.holds_iff_infix, ← Config.exists_isRoot_iff hline,
    ← Option.ne_none_iff_isSome, ne_eq, Config.modulesRoot?_eq_none_iff, not_forall_not]

theorem holds_marker_iff : Text.holds ('/' :: config.marker) path.toList = true ↔
    ∃ before after, path = before ++ "/" ++ config.modulesDir ++ "/" ++ after := by
  rw [Text.holds_iff_infix]
  constructor
  · rintro ⟨before, after, hpath⟩
    refine ⟨String.ofList before, String.ofList after, ?_⟩
    rw [← String.toList_inj, ← hpath]
    simp [Config.marker]
  · rintro ⟨before, after, rfl⟩
    exact ⟨before.toList, after.toList, by simp [Config.marker]⟩

/-- The modules root is what the preferred match of the pattern captures: the longest beginning of
    the path that ends in a slash, holds no line feed and is followed by the modules directory and
    a slash. In a path of one line there is one just when the path has the modules directory
    between two slashes in it, so modules are found just below modules roots. -/
theorem modulesRoot?_longest (config : Config) (path : String) :
    config.modulesRoot? path = (config.captures path.toList).head?.map String.ofList ∧
      (∀ root, config.modulesRoot? path = some root ↔ config.IsRoot path root ∧
        ∀ other, config.IsRoot path other → other.length ≤ root.length) ∧
      (config.modulesRoot? path = none ↔ ∀ root, ¬config.IsRoot path root) ∧
      ('\n' ∉ path.toList →
        ((config.modulesRoot? path).isSome = true ↔
          ∃ before after, path = before ++ "/" ++ config.modulesDir ++ "/" ++ after) ∧
        isModulePath config path = (config.moduleExtension.toList.isSuffixOf path.toList &&
          (config.modulesRoot? path).isSome)) := by
  refine ⟨Config.modulesRoot?_eq_head? config path, fun _ => Config.modulesRoot?_eq_some_iff,
    Config.modulesRoot?_eq_none_iff, fun hline => ⟨?_, ?_⟩⟩
  · rw [isSome_modulesRoot? hline, holds_marker_iff]
  · rw [isSome_modulesRoot? hline]
    rfl

/-- A module of a vendored tree, which has a modules directory of its own. -/
def vendoredPath : String := "/ws/plugins/vendor/plugins/c9.core/ext.js"

theorem modulesRoot?_longest_vendored :
    '\n' ∉ vendoredPath.toList ∧
      Config.default.modulesRoot? vendoredPath = some "/ws/plugins/vendor/" ∧
      Config.default.IsRoot vendoredPath "/ws/" ∧
      (∀ other, Config.default.IsRoot vendoredPath other →
        other.length ≤ "/ws/plugins/vendor/".length) ∧
      (∃ before after, vendoredPath = before ++ "/" ++ "plugins" ++ "/" ++ after) ∧
      isModulePath .default vendoredPath = true := by
  have hline : '\n' ∉ vendoredPath.toList := by decide
  have hroot : Config.default.modulesRoot? vendoredPath = some "/ws/plugins/vendor/" := by decide
  obtain ⟨-, hlongest, -, hplain⟩ := modulesRoot?_longest .default vendoredPath
  obtain ⟨hoccurs, hmodule⟩ := hplain hline
  refine ⟨hline, hroot, ?_, ((hlongest _).1 hroot).2, hoccurs.1 ?_, ?_⟩
  · exact ⟨⟨"/ws", by decide⟩, by decide, "vendor/plugins/c9.core/ext.js", by decide⟩
  · rw [hroot]
    rfl
  · rw [hmodule, hroot]
    decide

end Capabilities.Workspace
