import Mathlib.Data.List.Lex
import Mathlib.Data.List.Nodup
import Capabilities.Proofs.Text.Blank
import Capabilities.Proofs.Workspace.Root

/-!
# What is found below a directory

The walk goes down folder by folder and leaves out a child with everything below it, while a path is
judged as a whole. Both come to the same: the places that the walk lists are the places of files
with no name that is passed over, each once (`mem_places_iff`, `nodup_places`). The components of a
path below a root are those of the root and then the names of its place, so sorting the places
sorts the paths by their components.
-/

namespace Capabilities.Text

/-- A text that a mark cuts in two is split on either side of it. -/
theorem split_append_mark (mark : Char) (before after : List Char) :
    split mark (before ++ mark :: after) = split mark before ++ split mark after := by
  induction before with
  | nil => simp [split]
  | cons c before ih =>
    rw [List.cons_append, split, split, ih]
    split
    · rfl
    · cases hsplit : split mark before with
      | nil => exact absurd hsplit (split_ne_nil mark before)
      | cons first others => rfl

/-- A text without the mark is not split. -/
theorem split_of_not_mem {mark : Char} {text : List Char} (h : mark ∉ text) :
    split mark text = [text] := by
  induction text with
  | nil => rfl
  | cons c text ih =>
    rw [List.mem_cons, not_or] at h
    rw [split, if_neg (by simpa using Ne.symm h.1), ih h.2]

end Capabilities.Text

namespace Capabilities.Workspace

open Resolver

/-! ### Well-formed trees -/

/-- A name that a file can have. -/
def IsName (name : String) : Prop := name ≠ "" ∧ '/' ∉ name.toList

mutual
/-- In every folder no two names are the same, and each of them is one that a file can have. -/
def Tree.Proper : Tree → Prop
  | .file _ => True
  | .folder children => (children.map Prod.fst).Nodup ∧ ProperAmong children
/-- All of named trees are well-formed, and so are their names. -/
def ProperAmong : List (String × Tree) → Prop
  | [] => True
  | (name, tree) :: rest => IsName name ∧ tree.Proper ∧ ProperAmong rest
end

variable {config : Config} {disk : Disk} {tree child : Tree} {children : List (String × Tree)}
  {name path root : String} {place first second : List String}

theorem ProperAmong.of_mem (h : ProperAmong children) (hmem : (name, child) ∈ children) :
    IsName name ∧ child.Proper := by
  induction children with
  | nil => cases hmem
  | cons entry rest ih =>
    obtain ⟨hname, hproper, hrest⟩ := h
    rcases List.mem_cons.1 hmem with rfl | hmem
    · exact ⟨hname, hproper⟩
    · exact ih hrest hmem

namespace Tree

theorem at?_nil (tree : Tree) : tree.at? [] = some tree := rfl

theorem at?_file_cons (text : Option String) (name : String) (place : List String) :
    (Tree.file text).at? (name :: place) = none := rfl

theorem at?_folder_cons (children : List (String × Tree)) (name : String) (place : List String) :
    (folder children).at? (name :: place) = (children.lookup name).bind (·.at? place) := rfl

/-- What lies at a place of a well-formed tree is well-formed, and the place has proper names. -/
theorem Proper.at? (h : tree.Proper) (hat : tree.at? place = some child) :
    child.Proper ∧ ∀ name ∈ place, IsName name := by
  induction place generalizing tree with
  | nil =>
    rw [at?_nil, Option.some.injEq] at hat
    subst hat
    exact ⟨h, fun name hname => by cases hname⟩
  | cons first place ih =>
    cases tree with
    | file text => cases hat
    | folder children =>
      rw [at?_folder_cons, Option.bind_eq_some_iff] at hat
      obtain ⟨next, hlookup, hnext⟩ := hat
      obtain ⟨hname, hproper⟩ := h.2.of_mem ((lookup_eq_some_iff_mem h.1).1 hlookup)
      obtain ⟨hchild, hplace⟩ := ih hproper hnext
      refine ⟨hchild, ?_⟩
      intro name hmem
      rcases List.mem_cons.1 hmem with rfl | hmem
      · exact hname
      · exact hplace name hmem

end Tree

/-! ### The walk -/

theorem mem_placesAmong_iff : place ∈ placesAmong children ↔
    ∃ name child below, (name, child) ∈ children ∧ isPassedOver name = false ∧
      below ∈ child.places ∧ place = name :: below := by
  induction children with
  | nil => simp [placesAmong]
  | cons entry rest ih =>
    obtain ⟨name, child⟩ := entry
    rw [placesAmong, List.mem_append, ih]
    constructor
    · rintro (hhere | ⟨other, tree, below, hmem, hother⟩)
      · split at hhere
        · cases hhere
        · rename_i hname
          obtain ⟨below, hbelow, rfl⟩ := List.mem_map.1 hhere
          exact ⟨name, child, below, List.mem_cons_self, by simpa using hname, hbelow, rfl⟩
      · exact ⟨other, tree, below, List.mem_cons_of_mem _ hmem, hother⟩
    · rintro ⟨other, tree, below, hmem, hother, hbelow, rfl⟩
      rcases List.mem_cons.1 hmem with heq | hmem
      · obtain ⟨rfl, rfl⟩ := Prod.mk.inj heq
        left
        rw [if_neg (by simp [hother])]
        exact List.mem_map_of_mem hbelow
      · right
        exact ⟨other, tree, below, hmem, hother, hbelow, rfl⟩

/-- The walk lists the files at places without a name that is passed over. -/
theorem mem_places_iff (h : tree.Proper) : place ∈ tree.places ↔
    (∃ text, tree.at? place = some (.file text)) ∧
      ∀ name ∈ place, isPassedOver name = false := by
  induction place generalizing tree with
  | nil =>
    cases tree with
    | file text => simp [Tree.places, Tree.at?_nil]
    | folder children => simp [Tree.places, Tree.at?_nil, mem_placesAmong_iff]
  | cons first place ih =>
    cases tree with
    | file text => simp [Tree.places, Tree.at?_file_cons]
    | folder children =>
      rw [Tree.places, mem_placesAmong_iff]
      simp only [Tree.at?_folder_cons, Option.bind_eq_some_iff, lookup_eq_some_iff_mem h.1,
        List.forall_mem_cons]
      constructor
      · rintro ⟨name, child, below, hmem, hname, hbelow, heq⟩
        obtain ⟨rfl, rfl⟩ := List.cons.inj heq
        obtain ⟨⟨text, hat⟩, hnames⟩ := (ih (h.2.of_mem hmem).2).1 hbelow
        exact ⟨⟨text, child, hmem, hat⟩, hname, hnames⟩
      · rintro ⟨⟨text, child, hmem, hat⟩, hname, hnames⟩
        have hbelow := (ih (h.2.of_mem hmem).2).2 ⟨⟨text, hat⟩, hnames⟩
        exact ⟨first, child, place, hmem, hname, hbelow, rfl⟩

mutual
/-- The walk lists no place twice. -/
theorem nodup_places : (tree : Tree) → tree.Proper → tree.places.Nodup
  | .file _, _ => List.nodup_singleton _
  | .folder children, h => nodup_placesAmong children h.1 h.2
theorem nodup_placesAmong : (children : List (String × Tree)) →
    (children.map Prod.fst).Nodup → ProperAmong children → (placesAmong children).Nodup
  | [], _, _ => List.nodup_nil
  | (name, tree) :: rest, hnames, h => by
    rw [List.map_cons, List.nodup_cons] at hnames
    rw [placesAmong, List.nodup_append']
    refine ⟨?_, nodup_placesAmong rest hnames.2 h.2.2, ?_⟩
    · split
      · exact List.nodup_nil
      · exact (nodup_places tree h.2.1).map (List.cons_injective)
    · -- a place of the child begins with its name, one of the others does not
      intro place hhere hlater
      obtain ⟨other, child, below, hmem, -, -, rfl⟩ := mem_placesAmong_iff.1 hlater
      split at hhere
      · cases hhere
      · obtain ⟨_, -, heq⟩ := List.mem_map.1 hhere
        obtain ⟨rfl, -⟩ := List.cons.inj heq
        exact hnames.1 (List.mem_map.2 ⟨_, hmem, rfl⟩)
end

/-! ### Components of paths -/

def isComponent (name : String) : Bool := name != "" && name != "."

/-- The components of a path. Slashes that follow one another count once, and a dot counts only in
    front; a slash in front is a component of its own. -/
def components (path : String) : List String :=
  if path = "" then []
  else
    match pathNames path with
    | [] => []
    | first :: rest => (if first = "" then "/" else first) :: rest.filter isComponent

theorem exists_pathNames (path : String) : ∃ first rest, pathNames path = first :: rest := by
  unfold pathNames
  obtain ⟨first, rest, hsplit⟩ := List.exists_cons_of_ne_nil (Text.split_ne_nil '/' path.toList)
  rw [hsplit]
  exact ⟨_, _, rfl⟩

theorem pathNames_append (before after : String) :
    pathNames (before ++ "/" ++ after) = pathNames before ++ pathNames after := by
  have htext : (before ++ "/" ++ after).toList = before.toList ++ '/' :: after.toList := by simp
  rw [pathNames, htext, Text.split_append_mark, List.map_append]
  rfl

theorem pathNames_of_isName (h : IsName name) : pathNames name = [name] := by
  rw [pathNames, Text.split_of_not_mem h.2, List.map_singleton, String.ofList_toList]

theorem components_of_pathNames {rest : List String} {front : String} (hne : path ≠ "")
    (hnames : pathNames path = front :: rest) :
    components path = (if front = "" then "/" else front) :: rest.filter isComponent := by
  simp [components, hne, hnames]

theorem joinPath_ne_empty (hpath : path ≠ "") (name : String) : joinPath path name ≠ "" := by
  rw [joinPath]
  split <;> simp [hpath]

/-- A path one name longer has one component more. -/
theorem components_joinPath (hpath : path ≠ "") (hname : IsName name) (hdot : name ≠ ".") :
    components (joinPath path name) = components path ++ [name] := by
  have hcomponent : isComponent name = true := by simp [isComponent, hname.1, hdot]
  have hjoined := joinPath_ne_empty hpath name
  by_cases hslash : path.toList.getLast? = some '/'
  · obtain ⟨before, hbefore⟩ := List.getLast?_eq_some_iff.1 hslash
    obtain rfl : path = String.ofList before ++ "/" := by
      rw [← String.toList_inj, hbefore]
      simp
    obtain ⟨front, rest, hnames⟩ := exists_pathNames (String.ofList before)
    have hempty : pathNames "" = [""] := rfl
    have hshort : pathNames (String.ofList before ++ "/") = front :: (rest ++ [""]) := by
      have happend := pathNames_append (String.ofList before) ""
      rwa [String.append_empty, hnames, hempty] at happend
    have hlong : pathNames (joinPath (String.ofList before ++ "/") name) =
        front :: (rest ++ [name]) := by
      rw [joinPath, if_pos (by simp), pathNames_append, hnames,
        pathNames_of_isName hname]
      rfl
    rw [components_of_pathNames hpath hshort, components_of_pathNames hjoined hlong]
    have hblank : isComponent "" = false := rfl
    simp [hcomponent, hblank]
  · obtain ⟨front, rest, hnames⟩ := exists_pathNames path
    have hlong : pathNames (joinPath path name) = front :: (rest ++ [name]) := by
      rw [joinPath, if_neg (by simp [hslash]), pathNames_append, hnames,
        pathNames_of_isName hname]
      rfl
    rw [components_of_pathNames hpath hnames, components_of_pathNames hjoined hlong]
    simp [hcomponent]

/-- The components of a path below a root are those of the root and the names of its place. -/
theorem components_pathBelow (hroot : root ≠ "")
    (hplace : ∀ name ∈ place, IsName name ∧ name ≠ ".") :
    components (pathBelow root place) = components root ++ place := by
  induction place generalizing root with
  | nil => exact (List.append_nil _).symm
  | cons name place ih =>
    rw [List.forall_mem_cons] at hplace
    have hbelow := ih (joinPath_ne_empty hroot name) hplace.2
    rw [components_joinPath hroot hplace.1.1 hplace.1.2] at hbelow
    rw [List.append_cons]
    exact hbelow

/-! ### The order -/

theorem isNoLater_iff : isNoLater first second = true ↔ ¬second < first := by
  rw [isNoLater, Bool.not_eq_true', ← Bool.not_eq_true, List.lex_eq_true_iff_lt]

/-- Sorted places are in ascending order, if none is there twice. -/
theorem pairwise_sorted {places : List (List String)} (h : places.Nodup) :
    (places.mergeSort isNoLater).Pairwise (· < ·) := by
  have hsorted : (places.mergeSort isNoLater).Pairwise
      fun first second => isNoLater first second = true := by
    apply List.pairwise_mergeSort
    · intro first second third hsecond hthird
      rw [isNoLater_iff, List.not_lt] at *
      exact List.le_trans hsecond hthird
    · intro first second
      rw [Bool.or_eq_true, isNoLater_iff, isNoLater_iff, List.not_lt, List.not_lt]
      exact List.le_total first second
  have hnodup : (places.mergeSort isNoLater).Nodup := (List.mergeSort_perm _ _).nodup_iff.2 h
  refine (hsorted.and hnodup).imp ?_
  rintro first second ⟨hnoLater, hne⟩
  by_contra hnotLess
  rw [isNoLater_iff, List.not_lt] at hnoLater
  exact hne (List.le_antisymm hnoLater (List.not_lt.1 hnotLess))

/-! ### Discovery -/

/-- A file below a tree that the walk gets to: no name on the way down to it begins with a dot or is
    that of the directory of installed packages. -/
structure Reached (tree : Tree) (place : List String) : Prop where
  isFile : ∃ text, tree.at? place = some (.file text)
  noDot : ∀ name ∈ place, ∀ rest, name ≠ "." ++ rest
  noPackages : "node_modules" ∉ place

theorem isPassedOver_eq_false_iff :
    isPassedOver name = false ↔ (∀ rest, name ≠ "." ++ rest) ∧ name ≠ "node_modules" := by
  have hdot : name.toList.head? = some '.' ↔ ∃ rest, name = "." ++ rest := by
    constructor
    · intro hhead
      obtain ⟨rest, hrest⟩ := List.head?_eq_some_iff.1 hhead
      refine ⟨String.ofList rest, ?_⟩
      rw [← String.toList_inj, hrest]
      simp
    · rintro ⟨rest, rfl⟩
      simp
  rw [isPassedOver, Bool.or_eq_false_iff, beq_eq_false_iff_ne, beq_eq_false_iff_ne, ne_eq, hdot,
    not_exists]

theorem reached_iff (h : tree.Proper) : Reached tree place ↔ place ∈ tree.places := by
  rw [mem_places_iff h]
  simp only [isPassedOver_eq_false_iff]
  constructor
  · intro hreached
    refine ⟨hreached.isFile, fun name hname => ⟨hreached.noDot name hname, ?_⟩⟩
    rintro rfl
    exact hreached.noPackages hname
  · rintro ⟨hfile, hnames⟩
    exact ⟨hfile, fun name hname => (hnames name hname).1,
      fun hpackages => (hnames _ hpackages).2 rfl⟩

theorem isModulePath_iff : isModulePath config path = true ↔
    (∃ front, path = front ++ config.moduleExtension) ∧
      ∃ before after, path = before ++ "/" ++ config.modulesDir ++ "/" ++ after := by
  have hextension : config.moduleExtension.toList <:+ path.toList ↔
      ∃ front, path = front ++ config.moduleExtension := by
    constructor
    · rintro ⟨front, hfront⟩
      refine ⟨String.ofList front, ?_⟩
      rw [← String.toList_inj, ← hfront]
      simp
    · rintro ⟨front, rfl⟩
      simp
  rw [isModulePath, Bool.and_eq_true, List.isSuffixOf_iff_suffix, hextension, holds_marker_iff]

theorem Disk.ne_empty_of_find? (hfound : disk.find? root = some tree) : root ≠ "" := by
  rintro rfl
  cases hfound

theorem Disk.find?_proper (h : disk.root.Proper) (hfound : disk.find? root = some tree) :
    tree.Proper := by
  obtain ⟨place, -, hat⟩ := Option.bind_eq_some_iff.1 hfound
  exact (h.at? hat).1

theorem Reached.components_pathBelow (h : tree.Proper) (hroot : root ≠ "")
    (hreached : Reached tree place) :
    components (pathBelow root place) = components root ++ place := by
  obtain ⟨text, hfile⟩ := hreached.isFile
  apply Workspace.components_pathBelow hroot
  intro name hname
  refine ⟨(h.at? hfile).2 name hname, ?_⟩
  rintro rfl
  exact hreached.noDot _ hname "" rfl

/-- What is found below a root are the paths of the files that the walk gets to and that end in the
    module extension and have the modules directory between two slashes in them, be it below the
    root or on the way to it. They are in ascending order of their components, so none is found
    twice. Where nothing lies at the root nothing is found. -/
theorem discover_exact (config : Config) (disk : Disk) (root : String)
    (h : disk.root.Proper) :
    (∀ path, path ∈ discover config disk root ↔
      ∃ tree place, disk.find? root = some tree ∧ Reached tree place ∧
        path = pathBelow root place ∧ components path = components root ++ place ∧
        (∃ front, path = front ++ config.moduleExtension) ∧
        ∃ before after, path = before ++ "/" ++ config.modulesDir ++ "/" ++ after) ∧
      (discover config disk root).Nodup ∧
      (discover config disk root).Pairwise fun first second =>
        components first < components second := by
  unfold discover
  cases hfound : disk.find? root with
  | none => simp
  | some tree =>
    have hroot := Disk.ne_empty_of_find? hfound
    have hproper := Disk.find?_proper h hfound
    have hcomponents : ∀ place ∈ tree.places,
        components (pathBelow root place) = components root ++ place := by
      intro place hplace
      exact ((reached_iff hproper).2 hplace).components_pathBelow hproper hroot
    have hordered : ((tree.places.filter fun place =>
        isModulePath config (pathBelow root place)).mergeSort isNoLater).Pairwise
          fun first second => components (pathBelow root first) <
            components (pathBelow root second) := by
      refine (pairwise_sorted ((nodup_places tree hproper).filter _)).imp_of_mem ?_
      intro first second hfirst hsecond hlt
      rw [hcomponents first (List.mem_filter.1 (List.mem_mergeSort.1 hfirst)).1,
        hcomponents second (List.mem_filter.1 (List.mem_mergeSort.1 hsecond)).1]
      exact List.append_left_lt hlt
    refine ⟨?_, ?_, ?_⟩
    · intro path
      simp only [List.mem_map, List.mem_mergeSort, List.mem_filter, isModulePath_iff,
        Option.some.injEq]
      constructor
      · rintro ⟨place, ⟨hplace, hmodule⟩, rfl⟩
        exact ⟨tree, place, rfl, (reached_iff hproper).2 hplace, rfl, hcomponents place hplace,
          hmodule⟩
      · rintro ⟨_, place, rfl, hreached, rfl, -, hmodule⟩
        exact ⟨place, ⟨(reached_iff hproper).1 hreached, hmodule⟩, rfl⟩
    · refine List.Pairwise.map _ ?_ hordered
      rintro first second hlt heq
      rw [heq] at hlt
      exact List.lt_irrefl _ hlt
    · exact List.pairwise_map.2 hordered

/-- A hidden folder below the modules directory, with packages and a hidden file of its own. -/
def archive : Disk :=
  ⟨.folder [("plugins", .folder [(".old", .folder [
    ("net", .folder [("net.js", .file (some "")), (".draft.js", .file none)]),
    ("net-http.js", .file none),
    ("node_modules", .folder [("dep.js", .file (some ""))])])])],
    []⟩

theorem discover_exact_archive :
    archive.root.Proper ∧
      "/plugins/.old/net/net.js" ∈ discover .default archive "/plugins/.old" ∧
      "/plugins/.old/net-http.js" ∈ discover .default archive "/plugins/.old" ∧
      components "/plugins/.old/net/net.js" < components "/plugins/.old/net-http.js" ∧
      "/plugins/.old/net/.draft.js" ∉ discover .default archive "/plugins/.old" ∧
      "/plugins/.old/net/net.js" ∉ discover .default archive "/plugins" := by
  have hproper : archive.root.Proper := by
    simp [archive, Tree.Proper, ProperAmong, IsName]
  have hfound : ∃ tree, archive.find? "/plugins/.old" = some tree ∧
      ["net", "net.js"] ∈ tree.places ∧ ["net-http.js"] ∈ tree.places :=
    ⟨_, rfl, by decide, by decide⟩
  obtain ⟨tree, hfound, hnet, hhttp⟩ := hfound
  have htree := Disk.find?_proper hproper hfound
  have hmem := (discover_exact .default archive "/plugins/.old" hproper).1
  have hmemAbove := (discover_exact .default archive "/plugins" hproper).1
  refine ⟨hproper, ?_, ?_, by decide, ?_, ?_⟩
  · exact (hmem _).2 ⟨tree, _, hfound, (reached_iff htree).2 hnet, by decide, by decide,
      ⟨"/plugins/.old/net/net", by decide⟩, "", ".old/net/net.js", by decide⟩
  · exact (hmem _).2 ⟨tree, _, hfound, (reached_iff htree).2 hhttp, by decide, by decide,
      ⟨"/plugins/.old/net-http", by decide⟩, "", ".old/net-http.js", by decide⟩
  · intro hdraft
    obtain ⟨_, place, -, hreached, -, hcomponents, -⟩ := (hmem _).1 hdraft
    have hsplit : components "/plugins/.old/net/.draft.js" =
        components "/plugins/.old" ++ ["net", ".draft.js"] := by decide
    obtain rfl := List.append_cancel_left (hsplit.symm.trans hcomponents)
    exact hreached.noDot ".draft.js" (by simp) "draft.js" rfl
  · intro hhidden
    obtain ⟨_, place, -, hreached, -, hcomponents, -⟩ := (hmemAbove _).1 hhidden
    have hsplit : components "/plugins/.old/net/net.js" =
        components "/plugins" ++ [".old", "net", "net.js"] := by decide
    obtain rfl := List.append_cancel_left (hsplit.symm.trans hcomponents)
    exact hreached.noDot ".old" (by simp) "old" rfl

end Capabilities.Workspace
