import Capabilities.Proofs.Resolver.State
import Capabilities.Resolver.Scheduling
import Capabilities.Workspace.Derivation
import Capabilities.Workspace.Discovery

/-!
# What a derived path table says

The table derived from modules that lie below one root, and of which no two declare the same
capability, names for every capability the module that declares it: put behind the root and
followed by the extension, the path in the table is the path of that module.
-/

namespace Capabilities.Workspace

open Host Resolver Script Capabilities.Module

variable {config : Config} {read : String → Option String} {modules : List String}
  {root path name : String}

/-! ### Paths -/

theorem rootFrom?_eq_some {marker seen rest root : List Char}
    (h : Config.rootFrom? marker seen rest = some root) :
    ∃ before after, rest = before ++ '/' :: after ∧ root = seen.reverse ++ before ++ ['/'] := by
  induction rest generalizing seen with
  | nil => cases h
  | cons c rest ih =>
    unfold Config.rootFrom? at h
    split at h
    · cases h
    cases hlater : Config.rootFrom? marker (c :: seen) rest with
    | some later =>
      rw [hlater] at h
      cases h
      obtain ⟨before, after, rfl, rfl⟩ := ih hlater
      exact ⟨c :: before, after, rfl, by simp⟩
    | none =>
      simp only [hlater] at h
      split at h
      · rename_i hc
        obtain ⟨hc, _⟩ := Bool.and_eq_true_iff.1 hc
        obtain rfl := beq_iff_eq.1 hc
        cases h
        exact ⟨[], rest, rfl, by simp⟩
      · cases h

/-- A module's path goes on behind its root, which ends in a slash. -/
theorem modulesRoot?_eq_some (h : config.modulesRoot? path = some root) :
    ∃ before after, path.toList = before ++ '/' :: after ∧ root.toList = before ++ ['/'] := by
  obtain ⟨found, hfound, rfl⟩ := Option.map_eq_some_iff.1 h
  obtain ⟨before, after, hpath, hroot⟩ := rootFrom?_eq_some hfound
  exact ⟨before, after, hpath, by simpa using hroot⟩

/-- The root, the relative path and the extension make up the path again. -/
theorem append_relativePath (hroot : config.modulesRoot? path = some root)
    (hextension : config.moduleExtension.toList <:+ path.toList)
    (hslash : '/' ∉ config.moduleExtension.toList) :
    root ++ relativePath config root path ++ config.moduleExtension = path := by
  obtain ⟨before, after, hpath, hroot⟩ := modulesRoot?_eq_some hroot
  have hbelow : path.toList.drop root.toList.length = after := by
    rw [hpath, hroot]
    simp
  -- the extension has no slash, so it lies behind the root
  have hbehind : '/' :: after <:+ path.toList := by
    rw [hpath]
    exact List.suffix_append before ('/' :: after)
  have hsuffix : config.moduleExtension.toList <:+ after := by
    rcases List.suffix_or_suffix_of_suffix hextension hbehind with hshort | hlong
    · rcases List.suffix_cons_iff.1 hshort with heq | hshort
      · exact absurd (by rw [heq]; exact List.mem_cons_self) hslash
      · exact hshort
    · exact absurd (hlong.subset List.mem_cons_self) hslash
  obtain ⟨front, hfront⟩ := hsuffix
  have hdrop : Text.dropTrailing? config.moduleExtension.toList after = some front := by
    unfold Text.dropTrailing?
    rw [if_pos (List.isSuffixOf_iff_suffix.2 ⟨front, hfront⟩), ← hfront]
    simp
  have hrelative : (relativePath config root path).toList = front := by
    unfold relativePath
    simp only [hbelow, hdrop, Option.getD_some, String.toList_ofList]
  rw [← String.toList_inj]
  simp [hrelative, hroot, hpath, ← hfront]

/-- The paths of discovered modules end in the extension. -/
theorem suffix_of_mem_discover {disk : Disk} {top : String} (h : path ∈ discover config disk top) :
    config.moduleExtension.toList <:+ path.toList := by
  unfold discover at h
  split at h
  · cases h
  · obtain ⟨place, hplace, rfl⟩ := List.mem_map.1 h
    have hmodule := (List.mem_filter.1 (List.mem_mergeSort.1 hplace)).2
    exact List.isSuffixOf_iff_suffix.1 (Bool.and_eq_true_iff.1 hmodule).1

/-- Where modules are found in order they need no sorting. -/
theorem discover_of_sorted {disk : Disk} {top : String}
    (h : ∀ tree ∈ disk.find? top, (tree.places.filter fun place =>
      isModulePath config (pathBelow top place)).Pairwise
        fun first second => isNoLater first second = true) :
    discover config disk top = ((disk.find? top).map fun tree =>
      (tree.places.filter fun place => isModulePath config (pathBelow top place)).map
        (pathBelow top)).getD [] := by
  unfold discover
  cases hfound : disk.find? top with
  | none => rfl
  | some tree =>
    simp only [List.mergeSort_of_pairwise (h tree hfound), Option.map_some, Option.getD_some]

/-! ### The table -/

/-- Where all paths of a name are the same, that one is found. -/
theorem lookup_of_forall {entries : List (String × String)} {name path : String}
    (hmem : (name, path) ∈ entries) (hall : ∀ other, (name, other) ∈ entries → other = path) :
    entries.lookup name = some path := by
  cases hlookup : entries.lookup name with
  | none =>
    have hnone := List.lookup_eq_none_iff.1 hlookup _ hmem
    simp at hnone
  | some other =>
    obtain ⟨before, after, heq, _⟩ := List.lookup_eq_some_iff.1 hlookup
    have hother : (name, other) ∈ entries := by
      rw [heq]
      simp
    rw [hall other hother]

variable [Parser]

/-- A module that declares to provide a capability. -/
def Offers (config : Config) (read : String → Option String) (modules : List String)
    (path name : String) : Prop :=
  path ∈ modules ∧ ∃ text names, read path = some text ∧
    (declaration .provides config.entryNames (parse text)).names? = some names ∧ name ∈ names

theorem mem_tableEntries_iff {relative : String} (hroot : config.modulesRoot? path = some root) :
    (name, relative) ∈ tableEntries config read path ↔
      relative = relativePath config root path ∧ ∃ text names, read path = some text ∧
        (declaration .provides config.entryNames (parse text)).names? = some names ∧
        name ∈ names := by
  unfold tableEntries
  cases read path with
  | none => simp [hroot]
  | some text =>
    cases hnames : (declaration .provides config.entryNames (parse text)).names? with
    | none => simp [hroot, hnames]
    | some names =>
      simp only [hroot, bind, Option.bind_some, hnames, pure, Option.getD_some, List.mem_map,
        Prod.mk.injEq, Option.some.injEq]
      constructor
      · rintro ⟨other, hother, rfl, rfl⟩
        exact ⟨rfl, text, names, rfl, hnames, hother⟩
      · rintro ⟨rfl, _, _, rfl, hsome, hname⟩
        rw [hnames] at hsome
        cases hsome
        exact ⟨name, hname, rfl, rfl⟩

/-- The derived table leads from a capability to the module that declares it. -/
theorem get?_deriveTable {relative : String}
    (hroot : ∀ path ∈ modules, config.modulesRoot? path = some root)
    (hunique : ∀ name first second, Offers config read modules first name →
      Offers config read modules second name → first = second) :
    (deriveTable config read modules).get? name = some relative ↔
      ∃ path, Offers config read modules path name ∧
        relative = relativePath config root path := by
  have hentry : ∀ relative, (name, relative) ∈ modules.flatMap (tableEntries config read) ↔
      ∃ path, Offers config read modules path name ∧
        relative = relativePath config root path := by
    intro relative
    rw [List.mem_flatMap]
    constructor
    · rintro ⟨path, hpath, hmem⟩
      obtain ⟨hrelative, hoffers⟩ := (mem_tableEntries_iff (hroot path hpath)).1 hmem
      exact ⟨path, ⟨hpath, hoffers⟩, hrelative⟩
    · rintro ⟨path, ⟨hpath, hoffers⟩, hrelative⟩
      exact ⟨path, hpath, (mem_tableEntries_iff (hroot path hpath)).2 ⟨hrelative, hoffers⟩⟩
  unfold deriveTable
  rw [CapabilityPaths.get?_ofList]
  constructor
  · intro hlookup
    obtain ⟨before, after, heq, _⟩ := List.lookup_eq_some_iff.1 hlookup
    refine (hentry relative).1 (List.mem_reverse.1 ?_)
    rw [heq]
    simp
  · rintro ⟨path, hoffers, rfl⟩
    apply lookup_of_forall (List.mem_reverse.2 ((hentry _).2 ⟨path, hoffers, rfl⟩))
    intro other hother
    obtain ⟨second, hsecond, rfl⟩ := (hentry other).1 (List.mem_reverse.1 hother)
    rw [hunique name path second hoffers hsecond]

end Capabilities.Workspace
